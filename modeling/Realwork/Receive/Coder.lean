import Realwork.Base.Str

/-!
# Receive — character repair around the XML parser

The work messages are EUC-JP text.  `fixChar` (`WSaxXml::FixChar`) moves the characters the XML
library would turn into something else out of its way before the parse, `checkChars`
(`WCoder::CheckChars`) moves their images back after it.

* `fixChar_bytes`: on a sequence of characters `fixChar` is a character-wise map.  It works in
  place, on one buffer with a reading index `i` and a writing index `j ≤ i`; the invariant
  (`FixState.Done`) is that the buffer holds the images of the characters read, then bytes that
  are not read again, then the characters to come.
* `checkChars_flatMap`: on a sequence of Shift_JIS characters `checkChars` is a character-wise map.
* `checkChars_convert_fixChar`: around a library that converts by the row/cell arithmetic, the
  two passes compose to the plain row/cell conversion.
-/

namespace Realwork.Receive

/-! ### `WSaxXml::FixChar` -/

/-- The variables of the loop of `FixChar`; `outChar` has `m_xmlLen + 1` bytes. -/
structure FixState where
  outChar : Str
  i : Nat
  j : Nat
  fixed : Bool

/-- `outChar[j] = lead; outChar[++j] = outChar[++i];`, and the `j++` and `i++` of the loop. -/
def FixState.two (s : FixState) (lead : UInt8) (fixed : Bool) : FixState :=
  let out := s.outChar.set s.j lead
  { outChar := out.set (s.j + 1) (out.getD (s.i + 1) 0), i := s.i + 2, j := s.j + 2, fixed }

/-- The body of the loop of `FixChar`. -/
def fixStep (s : FixState) : FixState :=
  let b := s.outChar.getD s.i 0
  if 0xa1 ≤ b ∧ b ≤ 0xfe then
    if b = 0xa1 then s.two (b + 0x54) true
    else if b = 0xad then s.two (b + 0x50) true
    else if 0xf5 ≤ b ∧ b ≤ 0xf8 then s.two 0xaf true
    else if 0xfd ≤ b then s.two 0xaf true
    else s.two b s.fixed
  else if b = 0x8e then s.two b s.fixed
  else if b = 0x8f then
    { outChar := (s.outChar.set s.j 0xa2).set (s.j + 1) 0xae, i := s.i + 3, j := s.j + 2,
      fixed := true }
  else { s with outChar := s.outChar.set s.j b, i := s.i + 1, j := s.j + 1 }

/-- `for( i=0; i<m_xmlLen; i++ )`; `i` grows in every iteration, so `m_xmlLen` iterations are
enough. -/
def fixLoop (xmlLen : Nat) : Nat → FixState → FixState
  | 0, s => s
  | n + 1, s => if s.i < xmlLen then fixLoop xmlLen n (fixStep s) else s

/-- `FixChar`: the text of `m_inputSource` after it.  The text comes from a `const char*`, so
it has no NUL and `strcpy` copies all of it. -/
def fixChar (inputSource : Str) : Str :=
  let s := fixLoop inputSource.length inputSource.length ⟨inputSource ++ [0], 0, 0, false⟩
  if s.fixed then cstr (s.outChar.set s.j 0) else inputSource

/-- A character of EUC-JP text. -/
inductive EucChar where
  | ascii (b : UInt8)
  | kana (kk : UInt8)
  | pair (lead trail : UInt8)
  | triple (tt uu : UInt8)
  deriving DecidableEq

namespace EucChar

def bytes : EucChar → Str
  | .ascii b => [b]
  | .kana kk => [0x8e, kk]
  | .pair lead trail => [lead, trail]
  | .triple tt uu => [0x8f, tt, uu]

/-- The bytes are in the ranges of the code; none of them is NUL. -/
def WellFormed : EucChar → Prop
  | .ascii b => b ≠ 0 ∧ b < 0x80
  | .kana kk => kk ≠ 0
  | .pair lead trail => 0xa1 ≤ lead ∧ lead ≤ 0xfe ∧ trail ≠ 0
  | .triple _ _ => True

/-- The loop of `FixChar` takes the bytes for one character. -/
def Cut : EucChar → Prop
  | .ascii b => ¬ (0xa1 ≤ b ∧ b ≤ 0xfe) ∧ b ≠ 0x8e ∧ b ≠ 0x8f
  | .pair lead _ => 0xa1 ≤ lead ∧ lead ≤ 0xfe
  | _ => True

/-- The lead byte `FixChar` writes. -/
def fixLead (lead : UInt8) : UInt8 :=
  if lead = 0xa1 then 0xf5 else if lead = 0xad then 0xfd
  else if (0xf5 ≤ lead ∧ lead ≤ 0xf8) ∨ 0xfd ≤ lead then 0xaf else lead

/-- The character `FixChar` makes of a character. -/
def fix : EucChar → EucChar
  | .pair lead trail => .pair (fixLead lead) trail
  | .triple _ _ => .pair 0xa2 0xae
  | c => c

/-- `FixChar` sets `fixed` on this character. -/
def fixes : EucChar → Bool
  | .pair lead _ => fixLead lead ≠ lead
  | .triple _ _ => true
  | _ => false

theorem bytes_length_pos (c : EucChar) : 0 < c.bytes.length := by
  cases c <;> simp [bytes]

theorem WellFormed.cut {c : EucChar} (h : c.WellFormed) : c.Cut := by
  cases c with
  | ascii b =>
      obtain ⟨-, hlow⟩ := h
      show ¬ (0xa1 ≤ b ∧ b ≤ 0xfe) ∧ b ≠ 0x8e ∧ b ≠ 0x8f
      grind
  | kana kk => trivial
  | pair lead trail => exact ⟨h.1, h.2.1⟩
  | triple _ _ => trivial

theorem fix_of_not_fixes {c : EucChar} (h : c.fixes = false) : c.fix = c := by
  cases c <;> simp_all [fix, fixes]

theorem fixLead_ne_zero : ∀ lead : UInt8, 0xa1 ≤ lead → fixLead lead ≠ 0 :=
  forall_byte (by decide +kernel)

theorem fixLead_mem : ∀ lead : UInt8, 0xa1 ≤ lead ∧ lead ≤ 0xfe →
    0xa1 ≤ fixLead lead ∧ fixLead lead ≤ 0xfe :=
  forall_byte (by decide +kernel)

theorem zero_notMem_fix {c : EucChar} (h : c.WellFormed) : 0 ∉ c.fix.bytes := by
  cases c with
  | ascii b => simpa [fix, bytes] using h.1.symm
  | kana kk => simpa [fix, bytes] using h.symm
  | pair lead trail =>
      simpa [fix, bytes] using ⟨(fixLead_ne_zero lead h.1).symm, h.2.2.symm⟩
  | triple _ _ => simp [fix, bytes]

end EucChar

/-- `done` is written, `rest` is still to be read, and the bytes between the two are not read
again. -/
def FixState.Done (s : FixState) (done rest : Str) : Prop :=
  ∃ junk, s.outChar = done ++ (junk ++ rest) ∧ s.j = done.length ∧
    s.i = done.length + junk.length

theorem getD_append_cons (l : Str) (b : UInt8) (r : Str) (n : Nat) (h : n = l.length) :
    (l ++ b :: r).getD n 0 = b := by
  subst h; simp [List.getD_eq_getElem?_getD]

/-- Writing `img` over the bytes after `done`. -/
theorem set_two (l : Str) {tail : Str} (h : 2 ≤ tail.length) (a b : UInt8) :
    ((l ++ tail).set l.length a).set (l.length + 1) b = l ++ ([a, b] ++ tail.drop 2) := by
  match tail, h with
  | x :: y :: tail, _ => simp

theorem set_one (l : Str) {tail : Str} (h : 1 ≤ tail.length) (a : UInt8) :
    (l ++ tail).set l.length a = l ++ ([a] ++ tail.drop 1) := by
  match tail, h with
  | x :: tail, _ => simp

/-- The branches that copy a lead byte and its trail byte. -/
theorem FixState.Done.two {s : FixState} {done rest : Str} {b t lead : UInt8} {fixed : Bool}
    (h : s.Done done (b :: t :: rest)) : (s.two lead fixed).Done (done ++ [lead, t]) rest := by
  obtain ⟨junk, ho, hj, hi⟩ := h
  have hread : (s.outChar.set s.j lead).getD (s.i + 1) 0 = t := by
    have hne : s.j ≠ s.i + 1 := by omega
    rw [List.getD_eq_getElem?_getD, List.getElem?_set_ne hne, ho, hi,
      ← List.getD_eq_getElem?_getD,
      show done ++ (junk ++ b :: t :: rest) = (done ++ junk ++ [b]) ++ t :: rest by simp]
    exact getD_append_cons _ _ _ _ (by simp; omega)
  refine ⟨(junk ++ [b, t]).drop 2, ?_, by simp [FixState.two, hj], ?_⟩
  · simp only [FixState.two, hread]
    rw [hj, ho, set_two done (by simp; omega),
      show junk ++ b :: t :: rest = (junk ++ [b, t]) ++ rest by simp,
      List.drop_append_of_le_length (by simp)]
    simp
  · simp [FixState.two, hi]; omega

/-- **One iteration on one character.** -/
theorem fixStep_done {s : FixState} {done rest : Str} {c : EucChar} (hc : c.Cut)
    (h : s.Done done (c.bytes ++ rest)) :
    (fixStep s).Done (done ++ c.fix.bytes) rest ∧ (fixStep s).i = s.i + c.bytes.length ∧
      (fixStep s).fixed = (s.fixed || c.fixes) := by
  obtain ⟨junk, ho, hj, hi⟩ := id h
  have hb : ∀ b tail, c.bytes = b :: tail → s.outChar.getD s.i 0 = b := fun b tail e => by
    rw [ho, e, hi, List.cons_append, ← List.append_assoc]
    exact getD_append_cons _ _ _ _ (by simp)
  cases c with
  | ascii b =>
      have hlow : ¬ (0xa1 ≤ b ∧ b ≤ 0xfe) ∧ b ≠ 0x8e ∧ b ≠ 0x8f := hc
      simp only [fixStep, hb b [] rfl, hlow, if_false]
      refine ⟨⟨(junk ++ [b]).drop 1, ?_, by simp [hj, EucChar.fix, EucChar.bytes], ?_⟩,
        by simp [EucChar.bytes], by simp [EucChar.fixes]⟩
      · rw [hj, ho, set_one done (by simp [EucChar.bytes]; omega),
          show junk ++ ((EucChar.ascii b).bytes ++ rest) = (junk ++ [b]) ++ rest by
            simp [EucChar.bytes],
          List.drop_append_of_le_length (by simp)]
        simp [EucChar.fix, EucChar.bytes]
      · simp [hi, EucChar.fix, EucChar.bytes]; omega
  | kana kk =>
      simp only [fixStep, hb 0x8e [kk] rfl]
      exact ⟨h.two, by simp [FixState.two, EucChar.bytes], by simp [FixState.two, EucChar.fixes]⟩
  | pair lead trail =>
      have hr : 0xa1 ≤ lead ∧ lead ≤ 0xfe := hc
      have hf : fixStep s = s.two (EucChar.fixLead lead)
          (if EucChar.fixLead lead ≠ lead then true else s.fixed) := by
        simp only [fixStep, hb lead [trail] rfl, hr, and_self, if_true, EucChar.fixLead]
        grind
      rw [hf]
      refine ⟨h.two, by simp [FixState.two, EucChar.bytes], ?_⟩
      simp only [FixState.two, EucChar.fixes]
      split <;> simp_all
  | triple tt uu =>
      have hf : fixStep s =
          ⟨(s.outChar.set s.j 0xa2).set (s.j + 1) 0xae, s.i + 3, s.j + 2, true⟩ := by
        simp only [fixStep, hb 0x8f [tt, uu] rfl]
        exact (if_neg (by decide)).trans ((if_neg (by decide)).trans (if_pos trivial))
      rw [hf]
      refine ⟨⟨(junk ++ [0x8f, tt, uu]).drop 2, ?_, by simp [hj, EucChar.fix, EucChar.bytes], ?_⟩,
        by simp [EucChar.bytes], by simp [EucChar.fixes]⟩
      · simp only [hj, ho]
        rw [set_two done (by simp [EucChar.bytes]; omega),
          show junk ++ ((EucChar.triple tt uu).bytes ++ rest) = (junk ++ [0x8f, tt, uu]) ++ rest
            by simp [EucChar.bytes],
          List.drop_append_of_le_length (by simp)]
        simp [EucChar.fix, EucChar.bytes]
      · simp [hi, EucChar.fix, EucChar.bytes]; omega

/-- **A run of the loop over a sequence of characters**, whatever is behind them. -/
theorem fixLoop_done {text : List EucChar} (ht : ∀ c ∈ text, c.Cut) {s : FixState}
    {done tail : Str} (h : s.Done done (text.flatMap EucChar.bytes ++ tail)) {xmlLen : Nat}
    (hlen : s.i + (text.flatMap EucChar.bytes).length ≤ xmlLen) (n : Nat) :
    ∃ s', fixLoop xmlLen (text.length + n) s = fixLoop xmlLen n s' ∧
      s'.Done (done ++ text.flatMap fun c => c.fix.bytes) tail ∧
      s'.i = s.i + (text.flatMap EucChar.bytes).length ∧
      s'.fixed = (s.fixed || text.any EucChar.fixes) := by
  induction text generalizing s done with
  | nil => exact ⟨s, by simp, by simpa using h, by simp, by simp⟩
  | cons c text ih =>
      have hbytes : ((c :: text).flatMap EucChar.bytes).length =
          c.bytes.length + (text.flatMap EucChar.bytes).length := by
        rw [List.flatMap_cons, List.length_append]
      rw [List.flatMap_cons, List.append_assoc] at h
      rw [hbytes] at hlen ⊢
      obtain ⟨hd, hi, hf⟩ := fixStep_done (ht c (by simp)) h
      have hpos := c.bytes_length_pos
      obtain ⟨s', hrun, hd', hi', hf'⟩ :=
        ih (fun c hc => ht c (List.mem_cons_of_mem _ hc)) hd (by omega)
      refine ⟨s', ?_, by simpa using hd', by omega, by simp [hf', hf, Bool.or_assoc]⟩
      rw [List.length_cons, Nat.add_right_comm, fixLoop, if_pos (by omega), hrun]

/-- A character has a byte at least. -/
theorem length_le_bytes (text : List EucChar) :
    text.length ≤ (text.flatMap EucChar.bytes).length := by
  induction text with
  | nil => simp
  | cons c text ih =>
      have hpos := c.bytes_length_pos
      simp only [List.length_cons, List.flatMap_cons, List.length_append]
      omega

theorem cstr_append_zero {l r : Str} (h : 0 ∉ l) : cstr (l ++ 0 :: r) = l := by
  simp only [cstr]
  rw [List.takeWhile_append_of_pos fun b hb => by
    simpa using fun e : b = 0 => h (e ▸ hb)]
  simp

/-- **`FixChar` is a character-wise map.** -/
theorem fixChar_bytes {text : List EucChar} (ht : ∀ c ∈ text, c.WellFormed) :
    fixChar (text.flatMap EucChar.bytes) = text.flatMap fun c => c.fix.bytes := by
  set source := text.flatMap EucChar.bytes with hsource
  have h₀ : FixState.Done ⟨source ++ [0], 0, 0, false⟩ [] (source ++ [0]) := ⟨[], by simp, rfl, rfl⟩
  obtain ⟨n, hn⟩ := Nat.exists_eq_add_of_le (length_le_bytes text)
  obtain ⟨s', hrun, ⟨junk, ho, hj, -⟩, hi, hf⟩ :=
    fixLoop_done (fun c hc => (ht c hc).cut) h₀ (Nat.zero_add source.length).le n
  have hstop : fixLoop source.length n s' = s' := by
    cases n <;> simp only [fixLoop, hi, Nat.zero_add, ← hsource, Nat.lt_irrefl, if_false]
  rw [hstop, ← hn, ← hsource] at hrun
  simp only [fixChar, hrun]
  split
  · rw [hj, ho, List.nil_append, set_one _ (by simp)]
    refine cstr_append_zero fun h0 => ?_
    obtain ⟨c, hc, h0⟩ := List.mem_flatMap.mp h0
    exact EucChar.zero_notMem_fix (ht c hc) h0
  · rename_i hfix
    simp only [hf, Bool.false_or, Bool.not_eq_true, List.any_eq_false] at hfix
    refine List.flatMap_congr fun c hc => ?_
    rw [EucChar.fix_of_not_fixes (by simpa using hfix c hc)]

/-! ### `WCoder::CheckChars` -/

/-- The branches of the loop of `CheckChars` that skip the next byte. -/
def skips (b : UInt8) : Bool :=
  (0x81 ≤ b && b ≤ 0x9f) || (0xe0 ≤ b && b ≤ 0xef) || b == 0xf0 || b == 0xf2 || b == 0xf3 ||
    b == 0xf4 || 0xf5 ≤ b

/-- What the loop of `CheckChars` writes in place of the byte it looks at. -/
def checkLead (b : UInt8) : UInt8 :=
  if b = 0xf0 then b - 0x6f
  else if b = 0xf2 ∨ b = 0xf3 then b - 5
  else if b = 0xf4 then b - 0x6d
  else b

/-- `CheckChars`. -/
def checkChars : Str → Str
  | [] => []
  | [b] => [checkLead b]
  | b :: t :: rest =>
      if skips b then checkLead b :: t :: checkChars rest
      else checkLead b :: checkChars (t :: rest)

theorem checkLead_of_not_skips : ∀ b : UInt8, skips b = false → checkLead b = b :=
  forall_byte (by decide +kernel)

/-- A byte of its own is kept. -/
theorem checkChars_single {b : UInt8} (h : skips b = false) (s : Str) :
    checkChars (b :: s) = b :: checkChars s := by
  cases s with
  | nil => simp [checkChars, checkLead_of_not_skips b h]
  | cons t s => simp [checkChars, h, checkLead_of_not_skips b h]

/-- A character of Shift_JIS text, as the loop of `CheckChars` cuts the text. -/
inductive SjisChar where
  | single (b : UInt8)
  | double (lead trail : UInt8)

namespace SjisChar

def bytes : SjisChar → Str
  | .single b => [b]
  | .double lead trail => [lead, trail]

/-- The loop of `CheckChars` looks at the first byte of the character and at no other. -/
def Cut : SjisChar → Prop
  | .single b => skips b = false
  | .double lead _ => skips lead = true

/-- The character `CheckChars` makes of a character. -/
def check : SjisChar → SjisChar
  | .single b => .single b
  | .double lead trail => .double (checkLead lead) trail

end SjisChar

/-- **`CheckChars` is a character-wise map.** -/
theorem checkChars_flatMap {text : List SjisChar} (ht : ∀ c ∈ text, c.Cut) :
    checkChars (text.flatMap SjisChar.bytes) = text.flatMap fun c => c.check.bytes := by
  induction text with
  | nil => rfl
  | cons c text ih =>
      have hc := ht c (by simp)
      have ih := ih fun c hc => ht c (List.mem_cons_of_mem _ hc)
      cases c with
      | single b =>
          rw [List.flatMap_cons, List.flatMap_cons, ← ih]
          exact checkChars_single hc _
      | double lead trail =>
          rw [List.flatMap_cons, List.flatMap_cons, ← ih]
          exact if_pos hc

/-! ### The two passes around the library -/

/-- The Shift_JIS lead byte of a row of 94 cells: two rows share a lead byte, row 1 has 0x81
and row 63 has 0xe0. -/
def sjisLead (row : Nat) : UInt8 :=
  UInt8.ofNat (if row < 63 then 0x81 + (row - 1) / 2 else 0xc1 + (row - 1) / 2)

/-- The Shift_JIS trail byte of a cell: the odd row of a lead byte has the trail bytes up to
0x9e, less 0x7f, the even row those from 0x9f on. -/
def sjisTrail (row cell : Nat) : UInt8 :=
  UInt8.ofNat (if row % 2 = 1 then (if cell < 64 then 0x3f + cell else 0x40 + cell)
    else 0x9e + cell)

/-- The lead byte the XML library makes of a lead byte: leads up to 0xf4 are the rows of
JIS X 0208, leads 0xf5 to 0xfe the user-defined rows, which have the leads from 0xf0 on. -/
def libraryLead (lead : UInt8) : UInt8 :=
  if lead ≤ 0xf4 then sjisLead (lead.toNat - 0xa0)
  else UInt8.ofNat (0xf0 + (lead.toNat - 0xf5) / 2)

/-- The row, or user-defined row, of a lead byte. -/
def libraryRow (lead : UInt8) : Nat :=
  if lead ≤ 0xf4 then lead.toNat - 0xa0 else lead.toNat - 0xf4

namespace EucChar

/-- The Shift_JIS character of an EUC-JP character by the row/cell arithmetic; a character of
three bytes has none. -/
def sjis : EucChar → SjisChar
  | .ascii b => .single b
  | .kana kk => .single kk
  | .pair lead trail =>
      .double (sjisLead (lead.toNat - 0xa0)) (sjisTrail (lead.toNat - 0xa0) (trail.toNat - 0xa0))
  | .triple _ _ => .single 0

/-- The Shift_JIS character the XML library makes of an EUC-JP character. -/
def library : EucChar → SjisChar
  | .pair lead trail =>
      .double (libraryLead lead) (sjisTrail (libraryRow lead) (trail.toNat - 0xa0))
  | c => c.sjis

/-- The characters of the texts the two passes are made for: ASCII, half-width kana, and two
bytes with a lead byte up to 0xf4 or in the rows 89 to 92. -/
def InScope : EucChar → Prop
  | .ascii b => b ≠ 0 ∧ b < 0x80
  | .kana kk => 0xa1 ≤ kk ∧ kk ≤ 0xdf
  | .pair lead trail => ((0xa1 ≤ lead ∧ lead ≤ 0xf4) ∨ (0xf9 ≤ lead ∧ lead ≤ 0xfc)) ∧
      0xa1 ≤ trail ∧ trail ≤ 0xfe
  | .triple _ _ => False

instance : DecidablePred InScope
  | .ascii b => inferInstanceAs (Decidable (b ≠ 0 ∧ b < 0x80))
  | .kana kk => inferInstanceAs (Decidable (0xa1 ≤ kk ∧ kk ≤ 0xdf))
  | .pair lead trail => inferInstanceAs (Decidable
      (((0xa1 ≤ lead ∧ lead ≤ 0xf4) ∨ (0xf9 ≤ lead ∧ lead ≤ 0xfc)) ∧ 0xa1 ≤ trail ∧ trail ≤ 0xfe))
  | .triple _ _ => inferInstanceAs (Decidable False)

theorem InScope.wellFormed {c : EucChar} (h : c.InScope) : c.WellFormed := by
  cases c with
  | ascii b => exact h
  | kana kk =>
      have := h.1
      show kk ≠ 0
      grind
  | pair lead trail =>
      obtain ⟨hl, ht, -⟩ := h
      show 0xa1 ≤ lead ∧ lead ≤ 0xfe ∧ trail ≠ 0
      grind
  | triple _ _ => trivial

/-- The characters the XML library has a row and a cell for. -/
def Convertible : EucChar → Prop
  | .ascii b => b ≠ 0 ∧ b < 0x80
  | .kana kk => 0xa1 ≤ kk ∧ kk ≤ 0xdf
  | .pair lead trail => (0xa1 ≤ lead ∧ lead ≤ 0xfe) ∧ 0xa1 ≤ trail ∧ trail ≤ 0xfe
  | .triple _ _ => False

theorem InScope.fix_convertible {c : EucChar} (h : c.InScope) : c.fix.Convertible := by
  cases c with
  | ascii b => exact h
  | kana kk => exact h
  | pair lead trail => exact ⟨fixLead_mem lead ⟨h.wellFormed.1, h.wellFormed.2.1⟩, h.2⟩
  | triple _ _ => exact h.elim

end EucChar

/-- The XML library: it converts a text of one- and two-byte characters character by character,
by the row/cell arithmetic. -/
def RowCellConverter (convert : Str → Str) : Prop :=
  ∀ text : List EucChar, (∀ c ∈ text, c.Convertible) →
    convert (text.flatMap EucChar.bytes) = text.flatMap fun c => c.library.bytes

/-- A lead byte through the repair, the library and the repair of the result: it is the lead
byte of its row, the parity of the row is kept, and `CheckChars` skips the trail byte. -/
theorem lead_roundtrip : ∀ lead : UInt8,
    ((0xa1 ≤ lead ∧ lead ≤ 0xf4) ∨ (0xf9 ≤ lead ∧ lead ≤ 0xfc)) →
    checkLead (libraryLead (EucChar.fixLead lead)) = sjisLead (lead.toNat - 0xa0) ∧
      libraryRow (EucChar.fixLead lead) % 2 = (lead.toNat - 0xa0) % 2 ∧
      skips (libraryLead (EucChar.fixLead lead)) = true :=
  forall_byte (by decide +kernel)

theorem single_not_skips : ∀ b : UInt8, b < 0x80 ∨ (0xa1 ≤ b ∧ b ≤ 0xdf) → skips b = false :=
  forall_byte (by decide +kernel)

/-- One character through the two passes and the library. -/
theorem EucChar.InScope.roundtrip {c : EucChar} (h : c.InScope) :
    c.fix.library.Cut ∧ c.fix.library.check = c.sjis := by
  cases c with
  | ascii b => exact ⟨single_not_skips b (.inl h.2), rfl⟩
  | kana kk => exact ⟨single_not_skips kk (.inr h), rfl⟩
  | pair lead trail =>
      obtain ⟨hlead, hrow, hskip⟩ := lead_roundtrip lead h.1
      refine ⟨hskip, ?_⟩
      show SjisChar.double (checkLead _) _ = _
      rw [hlead]
      simp only [EucChar.sjis, sjisTrail, hrow]
  | triple _ _ => exact h.elim

/-- **The two passes around the library compose to the plain conversion**, character by
character. -/
theorem checkChars_convert_fixChar {convert : Str → Str} (hconv : RowCellConverter convert)
    (text : List EucChar) (ht : ∀ c ∈ text, c.InScope) :
    checkChars (convert (fixChar (text.flatMap EucChar.bytes))) =
      text.flatMap fun c => c.sjis.bytes := by
  have hfix : ∀ c ∈ text.map EucChar.fix, c.Convertible := fun c hc => by
    obtain ⟨d, hd, rfl⟩ := List.mem_map.mp hc
    exact (ht d hd).fix_convertible
  have hcut : ∀ c ∈ text.map fun c => c.fix.library, c.Cut := fun c hc => by
    obtain ⟨d, hd, rfl⟩ := List.mem_map.mp hc
    exact (ht d hd).roundtrip.1
  calc checkChars (convert (fixChar (text.flatMap EucChar.bytes)))
      = checkChars (convert ((text.map EucChar.fix).flatMap EucChar.bytes)) := by
        rw [fixChar_bytes fun c hc => (ht c hc).wellFormed, List.flatMap_map]
    _ = checkChars ((text.map fun c => c.fix.library).flatMap SjisChar.bytes) := by
        rw [hconv _ hfix, List.flatMap_map, List.flatMap_map]
    _ = (text.map fun c => c.fix.library).flatMap fun c => c.check.bytes :=
        checkChars_flatMap hcut
    _ = text.flatMap fun c => c.sjis.bytes := by
        rw [List.flatMap_map]
        exact List.flatMap_congr fun c hc => by rw [(ht c hc).roundtrip.2]

/-- A converter by the row/cell arithmetic. -/
def rowCellConvert : Str → Str
  | [] => []
  | [b] => [b]
  | b :: t :: rest =>
      if b = 0x8e then t :: rowCellConvert rest
      else if 0xa1 ≤ b ∧ b ≤ 0xfe then
        libraryLead b :: sjisTrail (libraryRow b) (t.toNat - 0xa0) :: rowCellConvert rest
      else b :: rowCellConvert (t :: rest)

theorem rowCellConverter_rowCellConvert : RowCellConverter rowCellConvert := by
  intro text ht
  induction text with
  | nil => rfl
  | cons c text ih =>
      rw [List.flatMap_cons, List.flatMap_cons, ← ih fun c hc => ht c (List.mem_cons_of_mem _ hc)]
      have hc := ht c (by simp)
      cases c with
      | ascii b =>
          have hb : b ≠ 0x8e ∧ ¬ (0xa1 ≤ b ∧ b ≤ 0xfe) := by
            have : b < 0x80 := hc.2
            grind
          show rowCellConvert (b :: _) = b :: _
          cases text.flatMap EucChar.bytes with
          | nil => rfl
          | cons t rest => exact (if_neg hb.1).trans (if_neg hb.2)
      | kana kk => exact if_pos rfl
      | pair lead trail =>
          have hl : 0xa1 ≤ lead ∧ lead ≤ 0xfe := hc.1
          have hne : lead ≠ 0x8e := by grind
          exact (if_neg hne).trans (if_pos hl)
      | triple tt uu => exact hc.elim

/-- A text with two bytes of row 1, of row 13 and of row 89, a half-width kana and a letter. -/
def mixedText : List EucChar :=
  [.pair 0xa1 0xa1, .pair 0xad 0xb5, .pair 0xf9 0xa1, .kana 0xb1, .ascii 0x41]

theorem checkChars_convert_fixChar_mixed :
    checkChars (rowCellConvert (fixChar (mixedText.flatMap EucChar.bytes))) =
      [0x81, 0x40, 0x87, 0x54, 0xed, 0x40, 0xb1, 0x41] :=
  (checkChars_convert_fixChar rowCellConverter_rowCellConvert mixedText (by decide)).trans
    (by decide)

end Realwork.Receive
