import Mathlib.Data.List.Forall2
import Realwork.Receive.Coder

/-!
# Receive — `CheckChars` on Shift_JIS text

`WCoder::CheckChars` goes over the buffer it has copied its argument into.  It takes every lead byte
of Shift_JIS for one, except `0xf1`: the trail byte of `0xf1` is looked at as if it were the first
byte of a character, and where it has the value of a lead byte, the next byte is passed over.

* `checkFrom_aligned`: what the loop makes of a text, character by character.
* `checkValue_touches_iff`: when only lead bytes are touched.
-/

namespace Realwork.Receive

/-! ### The buffer -/

/-- The bytes `CheckChars` looks at: `strcpy` copies the argument up to its first NUL, and behind it
the new array has what was in the memory. -/
def checkBuffer (fresh : Nat → UInt8) (value : Str) : Str :=
  (cstr value ++ 0 :: (List.range value.length).map fresh).take value.length

/-- The lead bytes `CheckChars` changes. -/
def changes (b : UInt8) : Bool := b == 0xf0 || b == 0xf2 || b == 0xf3 || b == 0xf4

/-- `fixed` after the loop of `CheckChars`. -/
def checkFixed : Str → Bool
  | [] => false
  | [b] => changes b
  | b :: t :: rest =>
      changes b || if skips b then checkFixed rest else checkFixed (t :: rest)

/-- `CheckChars`, with the memory of the array. -/
def checkValue (fresh : Nat → UInt8) (value : Str) : Str :=
  let outChar := checkBuffer fresh value
  if checkFixed outChar then cstr (checkChars outChar) else value

/-! ### The loop -/

theorem changes_iff : ∀ b : UInt8, changes b = true ↔ checkLead b ≠ b :=
  forall_byte (by decide +kernel)

/-- A lead byte stays one, is not changed again, and is not made a NUL. -/
theorem checkLead_again : ∀ b : UInt8, skips (checkLead b) = skips b ∧
    checkLead (checkLead b) = checkLead b ∧ (0 = checkLead b ↔ 0 = b) :=
  forall_byte (by decide +kernel)

theorem checkChars_skip {b : UInt8} (h : skips b = true) (t : UInt8) (s : Str) :
    checkChars (b :: t :: s) = checkLead b :: t :: checkChars s :=
  if_pos h

/-- **Applied twice**, the loop is as good as once. -/
theorem checkChars_idem (s : Str) : checkChars (checkChars s) = checkChars s := by
  induction s using checkChars.induct with
  | case1 => rfl
  | case2 b => simp only [checkChars, (checkLead_again b).2.1]
  | case3 b t rest hskip ih =>
      rw [checkChars_skip hskip, checkChars_skip ((checkLead_again b).1.trans hskip), ih,
        (checkLead_again b).2.1]
  | case4 b t rest hskip ih =>
      rw [checkChars_single (by simpa using hskip), checkChars_single (by simpa using hskip), ih]

@[simp] theorem length_checkChars (s : Str) : (checkChars s).length = s.length := by
  induction s using checkChars.induct with
  | case1 => rfl
  | case2 b => rfl
  | case3 b t rest hskip ih => simp only [checkChars_skip hskip, List.length_cons, ih]
  | case4 b t rest hskip ih =>
      simp only [checkChars_single (by simpa using hskip), List.length_cons, ih]

/-- The loop neither makes a NUL nor changes one. -/
theorem zero_mem_checkChars {s : Str} : 0 ∈ checkChars s ↔ 0 ∈ s := by
  induction s using checkChars.induct with
  | case1 => rfl
  | case2 b => simp only [checkChars, List.mem_singleton, (checkLead_again b).2.2]
  | case3 b t rest hskip ih =>
      simp only [checkChars_skip hskip, List.mem_cons, (checkLead_again b).2.2, ih]
  | case4 b t rest hskip ih =>
      rw [checkChars_single (by simpa using hskip), List.mem_cons, ih,
        List.mem_cons (l := t :: rest)]

/-- `fixed` is set where the loop changes a byte. -/
theorem checkFixed_iff (s : Str) : checkFixed s = true ↔ checkChars s ≠ s := by
  induction s using checkChars.induct with
  | case1 => simp [checkFixed, checkChars]
  | case2 b => simp [checkFixed, checkChars, changes_iff]
  | case3 b t rest hskip ih =>
      rw [checkFixed, if_pos hskip, Bool.or_eq_true, changes_iff, ih, checkChars_skip hskip]
      simp [or_iff_not_imp_left]
  | case4 b t rest hskip ih =>
      have hkeep : changes b = false := by
        rw [← Bool.not_eq_true, changes_iff, not_not]
        exact checkLead_of_not_skips b (by simpa using hskip)
      rw [checkFixed, if_neg hskip, hkeep, Bool.false_or, ih,
        checkChars_single (b := b) (by simpa using hskip), ne_eq, ne_eq, List.cons_inj_right]

/-- On a text without NUL the memory of the array does not matter. -/
theorem checkValue_of_noNul {value : Str} (h : 0 ∉ value) (fresh : Nat → UInt8) :
    checkValue fresh value = checkChars value := by
  have hbuffer : checkBuffer fresh value = value := by
    rw [checkBuffer, cstr_eq_self h, List.take_left]
  rw [checkValue, hbuffer]
  split
  · exact cstr_eq_self (mt zero_mem_checkChars.mp h)
  · rename_i hfixed
    rw [checkFixed_iff, not_not] at hfixed
    exact hfixed.symm

/-! ### The loop on Shift_JIS text -/

namespace SjisChar

/-- The characters of Shift_JIS. -/
def WellFormed : SjisChar → Prop
  | single b => b < 0x80 ∨ (0xa1 ≤ b ∧ b ≤ 0xdf)
  | double lead trail =>
      ((0x81 ≤ lead ∧ lead ≤ 0x9f) ∨ (0xe0 ≤ lead ∧ lead ≤ 0xfc)) ∧
        ((0x40 ≤ trail ∧ trail ≤ 0x7e) ∨ (0x80 ≤ trail ∧ trail ≤ 0xfc))

instance : DecidablePred WellFormed
  | single b => inferInstanceAs (Decidable (b < 0x80 ∨ (0xa1 ≤ b ∧ b ≤ 0xdf)))
  | double lead trail => inferInstanceAs (Decidable
      (((0x81 ≤ lead ∧ lead ≤ 0x9f) ∨ (0xe0 ≤ lead ∧ lead ≤ 0xfc)) ∧
        ((0x40 ≤ trail ∧ trail ≤ 0x7e) ∨ (0x80 ≤ trail ∧ trail ≤ 0xfc))))

/-- The loop, which passes over the first byte or not, looks at the trail byte. -/
def TrailSeen (skip : Bool) (lead : UInt8) : Prop := skip = true ∨ lead = 0xf1

instance (skip : Bool) (lead : UInt8) : Decidable (TrailSeen skip lead) :=
  inferInstanceAs (Decidable (skip = true ∨ lead = 0xf1))

/-- After a character, the loop passes over the first byte of the next one. -/
def slips (skip : Bool) : SjisChar → Bool
  | single _ => false
  | double lead trail => TrailSeen skip lead && skips trail

/-- What the loop makes of a character. -/
def scan (skip : Bool) : SjisChar → SjisChar
  | single b => single b
  | double lead trail =>
      double (if skip then lead else checkLead lead)
        (if TrailSeen skip lead then checkLead trail else trail)

end SjisChar

/-- The characters of a text, each with whether the loop passes over its first byte. -/
def aligned : Bool → List SjisChar → List (Bool × SjisChar)
  | _, [] => []
  | skip, c :: text => (skip, c) :: aligned (c.slips skip) text

/-- The loop from a byte on, or from the next one. -/
def checkFrom (skip : Bool) (s : Str) : Str :=
  if skip then s.take 1 ++ checkChars (s.drop 1) else checkChars s

/-- The loop on one byte. -/
theorem checkFrom_false_cons (b : UInt8) (s : Str) :
    checkFrom false (b :: s) = checkLead b :: checkFrom (skips b) s := by
  show checkChars (b :: s) = _
  by_cases hskip : skips b = true
  · rw [hskip]
    cases s with
    | nil => rfl
    | cons t s => exact checkChars_skip hskip t s
  · have hb : skips b = false := by simpa using hskip
    rw [checkChars_single hb, hb, checkLead_of_not_skips b hb]
    rfl

/-- The lead bytes the loop does not know. -/
theorem skips_lead : ∀ lead : UInt8,
    ((0x81 ≤ lead ∧ lead ≤ 0x9f) ∨ (0xe0 ≤ lead ∧ lead ≤ 0xfc)) →
      (skips lead = true ↔ lead ≠ 0xf1) :=
  forall_byte (by decide +kernel)

/-- **The loop on one character.** -/
theorem checkFrom_char {c : SjisChar} (hc : c.WellFormed) (skip : Bool) (s : Str) :
    checkFrom skip (c.bytes ++ s) = (c.scan skip).bytes ++ checkFrom (c.slips skip) s := by
  cases c with
  | single b =>
      have hb : skips b = false := single_not_skips b hc
      cases skip with
      | true => rfl
      | false =>
          refine (checkFrom_false_cons b s).trans ?_
          rw [hb, checkLead_of_not_skips b hb]
          rfl
  | double lead trail =>
      cases skip with
      | true => exact congrArg (lead :: ·) (checkFrom_false_cons trail s)
      | false =>
          refine (checkFrom_false_cons lead (trail :: s)).trans ?_
          by_cases hlead : lead = 0xf1
          · subst hlead
            exact congrArg (checkLead 0xf1 :: ·) (checkFrom_false_cons trail s)
          · have hskip := (skips_lead lead hc.1).mpr hlead
            have hseen : ¬ SjisChar.TrailSeen false lead := by simp [SjisChar.TrailSeen, hlead]
            rw [hskip]
            simp [SjisChar.scan, SjisChar.slips, SjisChar.bytes, hseen, checkFrom]

/-- **The loop on a text**, character by character. -/
theorem checkFrom_aligned {text : List SjisChar} (ht : ∀ c ∈ text, c.WellFormed) (skip : Bool) :
    checkFrom skip (text.flatMap SjisChar.bytes) =
      (aligned skip text).flatMap fun p => (p.2.scan p.1).bytes := by
  induction text generalizing skip with
  | nil => cases skip <;> rfl
  | cons c text ih =>
      rw [List.flatMap_cons, checkFrom_char (ht c (by simp)), aligned, List.flatMap_cons,
        ih fun c hc => ht c (List.mem_cons_of_mem _ hc)]

/-! ### What is touched -/

/-- The lead bytes that may be changed, and what to. -/
def leadChanges : List (UInt8 × UInt8) := [(0xf0, 0x81), (0xf2, 0xed), (0xf3, 0xee), (0xf4, 0x87)]

/-- A character is kept, or its lead byte is changed. -/
inductive SjisChar.Kept : SjisChar → SjisChar → Prop where
  | single (b : UInt8) : Kept (single b) (single b)
  | double {lead lead' : UInt8} (trail : UInt8) (h : lead' = lead ∨ (lead, lead') ∈ leadChanges) :
      Kept (double lead trail) (double lead' trail)

/-- A text is what another one is but for its lead bytes. -/
def KeepsText (text : List SjisChar) (value : Str) : Prop :=
  ∃ text', List.Forall₂ SjisChar.Kept text text' ∧ value = text'.flatMap SjisChar.bytes

/-- The trail byte of a character is not changed by the loop. -/
def SjisChar.TrailKept (skip : Bool) : SjisChar → Prop
  | single _ => True
  | double lead trail => TrailSeen skip lead → changes trail = false

instance (skip : Bool) : DecidablePred (SjisChar.TrailKept skip)
  | .single _ => .isTrue trivial
  | .double lead trail =>
      inferInstanceAs (Decidable (SjisChar.TrailSeen skip lead → changes trail = false))

/-- The lead byte of a character is not changed by the loop. -/
def SjisChar.LeadKept (skip : Bool) : SjisChar → Prop
  | single _ => True
  | double lead _ => skip = false → changes lead = false

theorem checkLead_eq_or : ∀ b : UInt8, checkLead b = b ∨ (b, checkLead b) ∈ leadChanges :=
  forall_byte (by decide +kernel)

namespace SjisChar

theorem kept_double_iff {lead lead' trail trail' : UInt8} :
    Kept (double lead trail) (double lead' trail') ↔
      (lead' = lead ∨ (lead, lead') ∈ leadChanges) ∧ trail' = trail := by
  constructor
  · rintro ⟨⟩
    exact ⟨‹_›, rfl⟩
  · rintro ⟨h, rfl⟩
    exact .double _ h

theorem not_changes_iff {b : UInt8} : changes b = false ↔ checkLead b = b := by
  rw [← Bool.not_eq_true, changes_iff, not_not]

theorem trail_scan_iff (skip : Bool) (lead trail : UInt8) :
    (if TrailSeen skip lead then checkLead trail else trail) = trail ↔
      (double lead trail).TrailKept skip := by
  by_cases hseen : TrailSeen skip lead
  · simp [TrailKept, hseen, not_changes_iff]
  · simp [TrailKept, hseen]

/-- A character is kept where its trail byte is. -/
theorem kept_scan_iff (skip : Bool) (c : SjisChar) : c.Kept (c.scan skip) ↔ c.TrailKept skip := by
  cases c with
  | single b => exact iff_of_true (.single b) trivial
  | double lead trail =>
      have hlead : (if skip then lead else checkLead lead) = lead ∨
          (lead, if skip then lead else checkLead lead) ∈ leadChanges := by
        cases skip with
        | true => exact .inl rfl
        | false => exact checkLead_eq_or lead
      rw [scan, kept_double_iff, and_iff_right hlead, trail_scan_iff]

/-- A character is not changed where neither of its bytes is. -/
theorem scan_eq_iff (skip : Bool) (c : SjisChar) :
    c.scan skip = c ↔ c.LeadKept skip ∧ c.TrailKept skip := by
  cases c with
  | single b => exact iff_of_true rfl ⟨trivial, trivial⟩
  | double lead trail =>
      rw [scan, double.injEq, trail_scan_iff]
      refine and_congr_left fun _ => ?_
      cases skip <;> simp [LeadKept, not_changes_iff]

end SjisChar

/-- The sizes of the characters of a text. -/
def sizes (text : List SjisChar) : List Nat := text.map fun c => c.bytes.length

/-- Texts with characters of the same sizes and with the same bytes are the same. -/
theorem eq_of_sizes {text₁ text₂ : List SjisChar} (hsizes : sizes text₁ = sizes text₂)
    (h : text₁.flatMap SjisChar.bytes = text₂.flatMap SjisChar.bytes) : text₁ = text₂ := by
  induction text₁ generalizing text₂ with
  | nil =>
      cases text₂ with
      | nil => rfl
      | cons d text₂ => cases hsizes
  | cons c text₁ ih =>
      cases text₂ with
      | nil => cases hsizes
      | cons d text₂ =>
          obtain ⟨hsize, hsizes⟩ := List.cons.inj hsizes
          rw [List.flatMap_cons, List.flatMap_cons] at h
          obtain ⟨hbytes, hrest⟩ := List.append_inj h hsize
          have hc : c = d := by
            cases c <;> cases d <;> simp_all [SjisChar.bytes]
          rw [hc, ih hsizes hrest]

theorem sizes_of_kept {text text' : List SjisChar} (h : List.Forall₂ SjisChar.Kept text text') :
    sizes text' = sizes text := by
  induction h with
  | nil => rfl
  | cons hc _ ih =>
      refine List.cons_eq_cons.mpr ⟨?_, ih⟩
      cases hc <;> rfl

/-- What the loop makes of the characters of a text. -/
def scanned (skip : Bool) (text : List SjisChar) : List SjisChar :=
  (aligned skip text).map fun p => p.2.scan p.1

theorem sizes_scanned (skip : Bool) (text : List SjisChar) :
    sizes (scanned skip text) = sizes text := by
  induction text generalizing skip with
  | nil => rfl
  | cons c text ih =>
      refine List.cons_eq_cons.mpr ⟨?_, ih _⟩
      cases c <;> rfl

/-- A text that is kept is as long as it was. -/
theorem KeepsText.length {text : List SjisChar} {value : Str} (h : KeepsText text value) :
    value.length = (text.flatMap SjisChar.bytes).length := by
  obtain ⟨text', hkept, rfl⟩ := h
  rw [List.length_flatMap, List.length_flatMap]
  exact congrArg List.sum (sizes_of_kept hkept)

/-- A relation between the characters and what the loop makes of them. -/
theorem forall₂_scanned_iff {R : SjisChar → SjisChar → Prop} (skip : Bool) (text : List SjisChar) :
    List.Forall₂ R text (scanned skip text) ↔ ∀ p ∈ aligned skip text, R p.2 (p.2.scan p.1) := by
  induction text generalizing skip with
  | nil => simp [scanned, aligned]
  | cons c text ih =>
      rw [scanned, aligned, List.map_cons, List.forall₂_cons, List.forall_mem_cons, ← ih]
      rfl

section

variable {text : List SjisChar} (ht : ∀ c ∈ text, c.WellFormed)
include ht

theorem checkChars_scanned :
    checkChars (text.flatMap SjisChar.bytes) = (scanned false text).flatMap SjisChar.bytes := by
  rw [scanned, List.flatMap_map]
  exact checkFrom_aligned ht false

/-- The loop keeps all but the lead bytes where it changes no trail byte. -/
theorem keepsText_checkChars_iff :
    KeepsText text (checkChars (text.flatMap SjisChar.bytes)) ↔
      ∀ p ∈ aligned false text, p.2.TrailKept p.1 := by
  have hscan := checkChars_scanned ht
  have hkept : List.Forall₂ SjisChar.Kept text (scanned false text) ↔
      ∀ p ∈ aligned false text, p.2.TrailKept p.1 :=
    (forall₂_scanned_iff false text).trans
      (forall₂_congr fun p _ => SjisChar.kept_scan_iff p.1 p.2)
  rw [← hkept]
  constructor
  · rintro ⟨text', htext', hbytes⟩
    have hsizes : sizes text' = sizes (scanned false text) :=
      (sizes_of_kept htext').trans (sizes_scanned false text).symm
    rw [← eq_of_sizes hsizes (hbytes.symm.trans hscan)]
    exact htext'
  · intro h
    exact ⟨_, h, hscan⟩

/-- The loop changes nothing where it changes no byte that it looks at. -/
theorem checkChars_eq_iff :
    checkChars (text.flatMap SjisChar.bytes) = text.flatMap SjisChar.bytes ↔
      ∀ p ∈ aligned false text, p.2.LeadKept p.1 ∧ p.2.TrailKept p.1 := by
  have hsame : scanned false text = text ↔
      ∀ p ∈ aligned false text, p.2.LeadKept p.1 ∧ p.2.TrailKept p.1 := by
    rw [eq_comm, ← List.forall₂_eq_eq_eq, forall₂_scanned_iff]
    exact forall₂_congr fun p _ => eq_comm.trans (SjisChar.scan_eq_iff p.1 p.2)
  rw [checkChars_scanned ht, ← hsame]
  exact ⟨eq_of_sizes (sizes_scanned false text), fun h => by rw [h]⟩

end

/-! ### NUL -/

theorem length_checkBuffer (fresh : Nat → UInt8) (value : Str) :
    (checkBuffer fresh value).length = value.length := by
  simp [checkBuffer]
  omega

/-- A NUL that is the last byte. -/
theorem checkBuffer_of_lastNul {pre : Str} (h : 0 ∉ pre) (fresh : Nat → UInt8) :
    checkBuffer fresh (pre ++ [0]) = pre ++ [0] := by
  rw [checkBuffer, cstr_append_zero h, List.take_append]
  simp [List.take_of_length_le]

/-- The loop looks at the byte behind a NUL. -/
theorem checkFixed_behind (l r : Str) : checkFixed (l ++ 0 :: 0xf0 :: r) = true := by
  have hlead : checkFixed (0xf0 :: r) = true := by
    cases r <;> rfl
  induction l using checkChars.induct with
  | case1 => exact hlead
  | case2 b =>
      show (changes b ||
        if skips b then checkFixed (0xf0 :: r) else checkFixed (0 :: 0xf0 :: r)) = true
      rw [show checkFixed (0 :: 0xf0 :: r) = true from hlead, hlead]
      simp
  | case3 b t rest hskip ih =>
      show (changes b || if skips b then checkFixed (rest ++ 0 :: 0xf0 :: r) else _) = true
      rw [if_pos hskip, ih, Bool.or_true]
  | case4 b t rest hskip ih =>
      show (changes b || if skips b then _ else checkFixed (t :: rest ++ 0 :: 0xf0 :: r)) = true
      rw [if_neg hskip, ih, Bool.or_true]

/-- Only lead bytes are touched, whatever is in the memory of the arrays, and a second time
nothing. -/
def TouchesLeads (text : List SjisChar) : Prop :=
  ∀ fresh fresh' : Nat → UInt8,
    KeepsText text (checkValue fresh (text.flatMap SjisChar.bytes)) ∧
      checkValue fresh' (checkValue fresh (text.flatMap SjisChar.bytes)) =
        checkValue fresh (text.flatMap SjisChar.bytes)

/-- Where the loop fixes a text with a NUL, the text is cut off. -/
theorem not_keepsText_of_fixed {text : List SjisChar} {fresh : Nat → UInt8}
    (h₀ : 0 ∈ checkBuffer fresh (text.flatMap SjisChar.bytes))
    (hfixed : checkFixed (checkBuffer fresh (text.flatMap SjisChar.bytes)) = true) :
    ¬ KeepsText text (checkValue fresh (text.flatMap SjisChar.bytes)) := by
  intro hkeeps
  set buffer := checkBuffer fresh (text.flatMap SjisChar.bytes) with hbuffer
  have hlen : (cstr (checkChars buffer)).length = (checkChars buffer).length := by
    rw [checkValue, ← hbuffer, if_pos hfixed] at hkeeps
    rw [hkeeps.length, length_checkChars, hbuffer, length_checkBuffer]
  -- the C string would be all of it
  have hall : cstr (checkChars buffer) = checkChars buffer :=
    (List.takeWhile_prefix _).eq_of_length hlen
  rw [cstr, List.takeWhile_eq_self_iff] at hall
  simpa using hall 0 (zero_mem_checkChars.mpr h₀)

theorem eq_cstr_append {value : Str} (h : 0 ∈ value) :
    0 ∉ cstr value ∧ ∃ rest, value = cstr value ++ 0 :: rest := by
  refine ⟨fun hmem => by simpa using List.mem_takeWhile_imp hmem, ?_⟩
  induction value with
  | nil => cases h
  | cons b value ih =>
      by_cases hb : b = 0
      · exact ⟨value, by simp [cstr, hb]⟩
      · obtain ⟨rest, hrest⟩ := ih (List.mem_of_ne_of_mem (Ne.symm hb) h)
        refine ⟨rest, ?_⟩
        rw [cstr, List.takeWhile_cons_of_pos (by simpa using hb), List.cons_append, ← cstr, ← hrest]

/-- Behind a NUL that is not the last byte the loop may find a lead byte. -/
theorem exists_fixed_of_innerNul {pre : Str} (h : 0 ∉ pre) (x : UInt8) (rest : Str) :
    ∃ fresh, checkFixed (checkBuffer fresh (pre ++ 0 :: x :: rest)) = true ∧
      0 ∈ checkBuffer fresh (pre ++ 0 :: x :: rest) := by
  have hbuffer : checkBuffer (fun _ => 0xf0) (pre ++ 0 :: x :: rest) =
      pre ++ 0 :: 0xf0 :: List.replicate rest.length 0xf0 := by
    have hsize : (pre ++ 0 :: x :: rest).length = pre.length + (rest.length + 2) := by
      simp [Nat.add_assoc]
    rw [checkBuffer, cstr_append_zero h, hsize, List.take_length_add_append, List.map_const',
      List.length_range, List.take_succ_cons, List.take_replicate, Nat.min_eq_left (by omega)]
    rfl
  refine ⟨fun _ => 0xf0, ?_, ?_⟩
  · rw [hbuffer]
    exact checkFixed_behind pre _
  · rw [hbuffer]
    simp

/-- Without a NUL the memory of the arrays does not matter. -/
theorem touchesLeads_of_noNul {text : List SjisChar} (h₀ : 0 ∉ text.flatMap SjisChar.bytes) :
    TouchesLeads text ↔ KeepsText text (checkChars (text.flatMap SjisChar.bytes)) := by
  have h₁ : 0 ∉ checkChars (text.flatMap SjisChar.bytes) := mt zero_mem_checkChars.mp h₀
  rw [TouchesLeads]
  simp only [checkValue_of_noNul h₀, checkValue_of_noNul h₁, checkChars_idem, and_true,
    forall_const]

/-- With a NUL as the last byte only what the loop leaves alone is kept. -/
theorem touchesLeads_of_lastNul {text : List SjisChar} {pre : Str} (hpre : 0 ∉ pre)
    (htext : text.flatMap SjisChar.bytes = pre ++ [0])
    (hkeeps : checkChars (text.flatMap SjisChar.bytes) = text.flatMap SjisChar.bytes →
      KeepsText text (text.flatMap SjisChar.bytes)) :
    TouchesLeads text ↔
      checkChars (text.flatMap SjisChar.bytes) = text.flatMap SjisChar.bytes := by
  have hbuffer : ∀ fresh, checkBuffer fresh (text.flatMap SjisChar.bytes) =
      text.flatMap SjisChar.bytes := by
    intro fresh
    rw [htext]
    exact checkBuffer_of_lastNul hpre fresh
  constructor
  · intro h
    by_contra hne
    refine not_keepsText_of_fixed ?_ ?_ (h (fun _ => 0) fun _ => 0).1
    · rw [hbuffer, htext]
      simp
    · rw [hbuffer, checkFixed_iff]
      exact hne
  · intro h fresh fresh'
    have hkeep : ∀ fresh, checkValue fresh (text.flatMap SjisChar.bytes) =
        text.flatMap SjisChar.bytes := by
      intro fresh
      rw [checkValue, hbuffer, if_neg (by rw [checkFixed_iff, h]; simp)]
    rw [hkeep, hkeep]
    exact ⟨hkeeps h, rfl⟩

/-- With a NUL before the last byte the text may be cut off. -/
theorem not_touchesLeads_of_innerNul {text : List SjisChar} {pre rest : Str} {x : UInt8}
    (hpre : 0 ∉ pre) (htext : text.flatMap SjisChar.bytes = pre ++ 0 :: x :: rest) :
    ¬ TouchesLeads text := by
  intro h
  obtain ⟨fresh, hfixed, hzero⟩ := exists_fixed_of_innerNul hpre x rest
  rw [← htext] at hfixed hzero
  exact not_keepsText_of_fixed hzero hfixed (h fresh fresh).1

/-- **Only lead bytes are touched**, if and only if the loop changes no trail byte that it looks at,
and the text has no NUL, or only one at its end and no lead byte that the loop changes. -/
theorem checkValue_touches_iff {text : List SjisChar} (ht : ∀ c ∈ text, c.WellFormed) :
    TouchesLeads text ↔ (∀ p ∈ aligned false text, p.2.TrailKept p.1) ∧
      (0 ∉ text.flatMap SjisChar.bytes ∨
        0 ∉ (text.flatMap SjisChar.bytes).dropLast ∧
          ∀ p ∈ aligned false text, p.2.LeadKept p.1) := by
  have hkeeps := keepsText_checkChars_iff ht
  have hsame := checkChars_eq_iff ht
  by_cases h₀ : 0 ∈ text.flatMap SjisChar.bytes
  · obtain ⟨hpre, rest, hrest⟩ := eq_cstr_append h₀
    rw [or_iff_right (not_not.mpr h₀)]
    rcases rest with _ | ⟨x, rest⟩
    · -- the NUL is the last byte
      have hlast : 0 ∉ (text.flatMap SjisChar.bytes).dropLast := by
        rw [hrest, List.dropLast_concat]
        exact hpre
      have hkept (h : checkChars (text.flatMap SjisChar.bytes) = text.flatMap SjisChar.bytes) :
          KeepsText text (text.flatMap SjisChar.bytes) :=
        h ▸ hkeeps.mpr fun p hp => (hsame.mp h p hp).2
      rw [touchesLeads_of_lastNul hpre hrest hkept, hsame, and_iff_right hlast, forall₂_and,
        and_comm]
    · refine iff_of_false (not_touchesLeads_of_innerNul hpre hrest) fun h => h.2.1 ?_
      rw [hrest]
      simp
  · rw [touchesLeads_of_noNul h₀, hkeeps, and_iff_left (Or.inl h₀)]

/-- A text with two lead bytes that are changed. -/
theorem checkValue_touches_two :
    TouchesLeads [.double 0xf0 0x40, .single 0xb1, .double 0xf4 0xf2] :=
  (checkValue_touches_iff (by decide)).mpr ⟨by decide, .inl (by decide)⟩

/-- The trail byte of `0xf1` is taken for a lead byte, and changed. -/
theorem checkValue_touches_lost :
    (∀ c ∈ [SjisChar.double 0xf1 0xf0], c.WellFormed) ∧
      (∀ fresh, checkValue fresh [0xf1, 0xf0] = [0xf1, 0x81]) ∧
      ¬ TouchesLeads [.double 0xf1 0xf0] := by
  have hwf : ∀ c ∈ [SjisChar.double 0xf1 0xf0], c.WellFormed := by decide
  have hvalue : ∀ fresh, checkValue fresh [0xf1, 0xf0] = [0xf1, 0x81] := fun fresh =>
    (checkValue_of_noNul (by decide) fresh).trans (by decide)
  refine ⟨hwf, hvalue, fun h => ?_⟩
  have hkeeps := (h (fun _ => 0) fun _ => 0).1
  rw [checkValue_of_noNul (by decide), keepsText_checkChars_iff hwf] at hkeeps
  exact absurd hkeeps (by decide)

end Realwork.Receive
