import Realwork.Common.Conf

/-!
# Common — the values of the configuration files

A line `key = value`, with blanks around key and value and a comment behind the value.  The place
of the comment is counted from the first character of the value, but the text is cut at it
counted from the `=`: the blanks before the value are cut off its end.

* `valueOf_eq`: what is taken of the text behind the `=`.
* `read_value_iff`: when the value is read back as it is.
-/

namespace Realwork.Common

open Realwork.Lib

/-! ### The searches -/

/-- A text of blanks. -/
def Blank (s : Str) : Prop := ∀ b ∈ s, isBlank b

instance (s : Str) : Decidable (Blank s) := inferInstanceAs (Decidable (∀ b ∈ s, isBlank b))

/-- A text that does not begin or end with a blank. -/
def Solid (s : Str) : Prop :=
  (∀ b ∈ s.head?, isBlank b = false) ∧ ∀ b ∈ s.getLast?, isBlank b = false

section

variable {w s r x y : Str}

theorem Blank.append (hx : Blank x) (hy : Blank y) : Blank (x ++ y) :=
  List.forall_mem_append.mpr ⟨hx, hy⟩

theorem Blank.findFirstNotOf_eq (h : Blank w) : findFirstNotOf w = none := by
  rw [findFirstNotOf, List.findIdx?_eq_none_iff]
  intro b hb
  simp [h b hb]

theorem Blank.findLastNotOf_eq (h : Blank w) : findLastNotOf w = none := by
  have hrev : w.reverse.findIdx? (fun b => !isBlank b) = none := by
    rw [List.findIdx?_eq_none_iff]
    intro b hb
    simp [h b (List.mem_reverse.mp hb)]
  rw [findLastNotOf, findLast?, hrev]
  rfl

theorem findFirstNotOf_append (hw : Blank w) (hne : s ≠ [])
    (hs : ∀ b ∈ s.head?, isBlank b = false) : findFirstNotOf (w ++ s) = some w.length := by
  obtain ⟨b, s, rfl⟩ := List.exists_cons_of_ne_nil hne
  have hnone : w.findIdx? (fun b => !isBlank b) = none := hw.findFirstNotOf_eq
  rw [findFirstNotOf, List.findIdx?_append, hnone, List.findIdx?_cons, hs b rfl]
  simp

theorem findLastNotOf_append (hw : Blank w) (hne : s ≠ [])
    (hs : ∀ b ∈ s.getLast?, isBlank b = false) :
    findLastNotOf (s ++ w) = some (s.length - 1) := by
  have hrev : Blank w.reverse := fun b hb => hw b (List.mem_reverse.mp hb)
  have hfirst := findFirstNotOf_append hrev (s := s.reverse) (by simpa using hne)
    (by simpa using hs)
  rw [findFirstNotOf] at hfirst
  rw [findLastNotOf, findLast?, List.reverse_append, hfirst, Option.map_some]
  have hpos := List.length_pos_iff.mpr hne
  rw [List.length_append, List.length_reverse]
  congr 1
  omega

/-- A text of which the blanks at the end are cut off. -/
theorem exists_rstrip (s : Str) :
    ∃ r w, s = r ++ w ∧ Blank w ∧ ∀ b ∈ r.getLast?, isBlank b = false := by
  induction s using List.reverseRecOn with
  | nil => exact ⟨[], [], rfl, by simp [Blank], by simp⟩
  | append_singleton s b ih =>
      by_cases hb : isBlank b
      · obtain ⟨r, w, rfl, hw, hr⟩ := ih
        exact ⟨r, w ++ [b], by simp, hw.append (by simpa [Blank] using hb), hr⟩
      · exact ⟨s ++ [b], [], by simp, by simp [Blank], by simpa using hb⟩

/-- From the first character that is no blank to the last one. -/
theorem take_drop_eq (w : Str) (hne : r ≠ []) (hr : ∀ b ∈ r.head?, isBlank b = false) :
    ((findLastNotOf (w ++ r)).bind fun last =>
      some (((w ++ r).drop w.length).take (last - w.length + 1))) =
      some (r.rdropWhile isBlank) := by
  obtain ⟨a, c, rfl, hc, ha⟩ := exists_rstrip r
  have hane : a ≠ [] := by
    rintro rfl
    rw [List.nil_append] at hne hr
    obtain ⟨b, c, rfl⟩ := List.exists_cons_of_ne_nil hne
    have hblank := hc b List.mem_cons_self
    rw [hr b rfl] at hblank
    cases hblank
  have hlast : ∀ b ∈ (w ++ a).getLast?, isBlank b = false := by
    rwa [List.getLast?_append_of_ne_nil _ hane]
  have hpos := List.length_pos_iff.mpr hane
  have hlen : (w ++ a).length - 1 - w.length + 1 = a.length := by
    rw [List.length_append]
    omega
  rw [← List.append_assoc, findLastNotOf_append hc (by simp [hane]) hlast, Option.bind_some, hlen,
    List.append_assoc, List.drop_left, List.take_left, rdropWhile_append ha hc]

/-! ### The comment -/

/-- Where in a text a comment is found. -/
def markerIn (s : Str) : Option Nat := markers.findSome? fun m => s.tails.findIdx? m.isPrefixOf

theorem findMarker_append (w r : Str) :
    findMarker (w ++ r) w.length = (markerIn r).map (w.length + ·) := by
  simp only [findMarker, markerIn, findFrom, List.drop_left]
  induction markers with
  | nil => rfl
  | cons m ms ih =>
      rw [List.findSome?_cons, List.findSome?_cons, ih]
      cases r.tails.findIdx? m.isPrefixOf <;> rfl

theorem findIdx?_tails_append {m : Str} (h : ∀ t, t ≠ [] → t <:+ x → ¬ m <+: t ++ y) :
    (x ++ y).tails.findIdx? m.isPrefixOf = (y.tails.findIdx? m.isPrefixOf).map (x.length + ·) := by
  induction x with
  | nil => simp
  | cons b x ih =>
      have hb : m.isPrefixOf (b :: x ++ y) = false := by
        have hno := h (b :: x) (by simp) (List.suffix_refl _)
        simpa [← List.isPrefixOf_iff_prefix] using hno
      have htails : (b :: x ++ y).tails = (b :: x ++ y) :: (x ++ y).tails := rfl
      rw [htails, List.findIdx?_cons, hb,
        ih fun t ht hsuffix => h t ht (hsuffix.trans (List.suffix_cons b x))]
      cases y.tails.findIdx? m.isPrefixOf with
      | none => rfl
      | some n => simp [Nat.add_right_comm]

theorem markerIn_append (h : ∀ m ∈ markers, ∀ t, t ≠ [] → t <:+ x → ¬ m <+: t ++ y) :
    markerIn (x ++ y) = (markerIn y).map (x.length + ·) := by
  unfold markerIn
  revert h
  generalize markers = ms
  intro h
  induction ms with
  | nil => rfl
  | cons m ms ih =>
      rw [List.forall_mem_cons] at h
      rw [List.findSome?_cons, List.findSome?_cons, findIdx?_tails_append h.1, ih h.2]
      cases y.tails.findIdx? m.isPrefixOf <;> rfl

/-- A marker is a blank, then other characters. -/
theorem markers_cons : ∀ m ∈ markers, ∃ b c rest, m = b :: c :: rest ∧
    ∀ b ∈ c :: rest, isBlank b = false := by
  intro m hm
  simp only [markers, List.mem_cons, List.not_mem_nil, or_false] at hm
  rcases hm with rfl | rfl | rfl | rfl <;> exact ⟨_, _, _, rfl, by decide +kernel⟩

/-- A marker that begins before a blank ends before it. -/
theorem prefix_of_prefix_append {m t : Str} (hm : m ∈ markers) (ht : t ≠ [])
    (hy : ∀ b ∈ y.head?, isBlank b) (h : m <+: t ++ y) : m <+: t := by
  rcases List.prefix_or_prefix_of_prefix h (List.prefix_append t y) with h' | ⟨m', rfl⟩
  · exact h'
  · obtain ⟨b, t, rfl⟩ := List.exists_cons_of_ne_nil ht
    obtain ⟨b', c, rest, heq, hrest⟩ := markers_cons _ hm
    cases m' with
    | nil => simp
    | cons d m' =>
        -- the marker goes on with a character that is no blank
        have hd : isBlank d = false := by
          refine hrest d ?_
          rw [List.cons_append, List.cons.injEq] at heq
          rw [← heq.2]
          simp
        obtain ⟨y', rfl⟩ := (List.prefix_append_right_inj _).mp h
        rw [hy d rfl] at hd
        cases hd

/-- No marker is in a text of blanks before a blank. -/
theorem Blank.markerIn_append (hx : Blank x) (hy : ∀ b ∈ y.head?, isBlank b) :
    markerIn (x ++ y) = (markerIn y).map (x.length + ·) := by
  refine Common.markerIn_append fun m hm t ht hsuffix h => ?_
  obtain ⟨b, c, rest, rfl, hrest⟩ := markers_cons m hm
  have hinitial := prefix_of_prefix_append hm ht hy h
  have hmem : c ∈ x := hsuffix.subset (hinitial.subset (by simp))
  have hc := hx c hmem
  rw [hrest c List.mem_cons_self] at hc
  cases hc

/-- No marker begins in a text without one, before a blank. -/
theorem markerIn_append_of_not_infix (hx : ∀ m ∈ markers, ¬ m <:+: x)
    (hy : ∀ b ∈ y.head?, isBlank b) : markerIn (x ++ y) = (markerIn y).map (x.length + ·) := by
  refine markerIn_append fun m hm t ht hsuffix h => hx m hm ?_
  exact (prefix_of_prefix_append hm ht hy h).isInfix.trans hsuffix.isInfix

/-- **What is taken of the text behind the `=`**, the blanks `w` and what follows them.  A comment
found at `n` leaves `n` characters of the whole text. -/
theorem valueOf_eq (hw : Blank w) (hne : r ≠ []) (hr : ∀ b ∈ r.head?, isBlank b = false) :
    valueOf (w ++ r) = match markerIn r with
      | none => some (r.rdropWhile isBlank)
      | some n =>
          if n ≤ w.length then none else some ((r.take (n - w.length)).rdropWhile isBlank) := by
  have hfirst := findFirstNotOf_append hw hne hr
  simp only [valueOf, Option.bind_eq_bind, hfirst, Option.bind_some, findMarker_append]
  cases markerIn r with
  | none => exact take_drop_eq w hne hr
  | some n =>
      simp only [Option.map_some, Nat.add_sub_cancel_left]
      rw [List.take_append]
      split
      · rename_i hn
        -- only blanks are left
        have hblank : Blank (w.take n ++ r.take (n - w.length)) := by
          rw [Nat.sub_eq_zero_of_le hn, List.take_zero, List.append_nil]
          exact fun b hb => hw b (List.mem_of_mem_take hb)
        rw [hblank.findLastNotOf_eq]
        rfl
      · rename_i hn
        rw [List.take_of_length_le (Nat.le_of_not_le hn)]
        refine take_drop_eq w ?_ ?_
        · simp only [ne_eq, List.take_eq_nil_iff, hne, or_false]
          omega
        · rw [List.head?_take]
          split
          · simp
          · exact hr

/-- The key, without the blanks around it. -/
theorem keyOf_eq {k w' : Str} (hw : Blank w) (hw' : Blank w') (hne : k ≠ []) (hk : Solid k) :
    keyOf (w ++ (k ++ w')) = some k := by
  have hhead : ∀ b ∈ (k ++ w').head?, isBlank b = false := by
    rw [List.head?_append_of_ne_nil _ hne]
    exact hk.1
  have hfirst := findFirstNotOf_append hw (s := k ++ w') (by simp [hne]) hhead
  simp only [keyOf, Option.bind_eq_bind, hfirst, Option.bind_some]
  refine (take_drop_eq w (by simp [hne]) hhead).trans ?_
  rw [rdropWhile_append hk.2 hw']

/-- Of a value, blanks and another character the value is left if it is all there, and of the rest
blanks only. -/
theorem rdropWhile_take_iff {v : Str} {d : UInt8} {rest : Str} {k : Nat} (hv : Solid v)
    (hw : Blank w) (hd : isBlank d = false) :
    ((v ++ (w ++ d :: rest)).take k).rdropWhile isBlank = v ↔
      v.length ≤ k ∧ k ≤ v.length + w.length := by
  obtain ⟨a, c, hac, hc, ha⟩ := exists_rstrip ((v ++ (w ++ d :: rest)).take k)
  have hlen := congrArg List.length hac
  rw [List.length_take, List.length_append, List.length_append, List.length_append] at hlen
  rw [hac, rdropWhile_append ha hc]
  constructor
  · rintro rfl
    have hk : a.length ≤ k := by omega
    refine ⟨hk, ?_⟩
    rw [List.take_append, List.take_of_length_le hk, List.append_cancel_left_eq] at hac
    by_contra hlt
    -- the other character would be among the blanks
    have hmem : d ∈ c := by
      rw [← hac, List.take_append, List.take_of_length_le (by omega)]
      have hpos : k - a.length - w.length = (k - a.length - w.length - 1) + 1 := by omega
      rw [hpos, List.take_succ_cons]
      simp
    have := hc d hmem
    rw [hd] at this
    cases this
  · rintro ⟨hk, hkw⟩
    rw [List.take_append, List.take_of_length_le hk, List.take_append,
      Nat.sub_eq_zero_of_le (by omega : k - v.length ≤ w.length), List.take_zero,
      List.append_nil] at hac
    have hblank : Blank (w.take (k - v.length)) := fun b hb => hw b (List.mem_of_mem_take hb)
    have hstrip := congrArg (List.rdropWhile isBlank) hac
    rw [rdropWhile_append ha hc, rdropWhile_append hv.2 hblank] at hstrip
    exact hstrip.symm

end

/-! ### A setting -/

/-- A comment behind a value: a blank, `#` or `//`, and a text. -/
structure Trailer where
  blank : UInt8
  mark : Str
  text : Str
  isBlank : isBlank blank
  mem : mark = lit "#" ∨ mark = lit "//"

namespace Trailer

def bytes (t : Trailer) : Str := t.blank :: (t.mark ++ t.text)

theorem mark_cons (t : Trailer) : ∃ d mark, t.mark = d :: mark ∧ Common.isBlank d = false := by
  rcases t.mem with h | h <;> exact ⟨_, _, h, by decide +kernel⟩

/-- Where the comment is found: at its beginning, or at a marker in its text that is looked for
before. -/
def found (t : Trailer) : Nat := (markerIn t.bytes).getD 0

theorem markerIn_bytes (t : Trailer) : markerIn t.bytes = some t.found := by
  have hmarker : t.blank :: t.mark ∈ markers := by
    have hblank : t.blank = 0x20 ∨ t.blank = 0x09 := by simpa [Common.isBlank] using t.isBlank
    rcases hblank with hb | hb <;> rcases t.mem with hm | hm <;> rw [hb, hm] <;> decide +kernel
  cases h : markerIn t.bytes with
  | some n => rw [found, h]; rfl
  | none =>
      rw [markerIn, List.findSome?_eq_none_iff] at h
      have hnone := h _ hmarker
      rw [List.findIdx?_eq_none_iff] at hnone
      have hinitial := hnone t.bytes List.mem_cons_self
      rw [← Bool.not_eq_true, List.isPrefixOf_iff_prefix] at hinitial
      exact absurd (List.prefix_append (t.blank :: t.mark) t.text) hinitial

end Trailer

/-- A line that sets a key to a value. -/
structure Setting where
  key : Str
  value : Str
  ws0 : Str
  ws1 : Str
  ws2 : Str
  ws3 : Str
  comment : Option Trailer
  blank0 : Blank ws0
  blank1 : Blank ws1
  blank2 : Blank ws2
  blank3 : Blank ws3
  key_ne : key ≠ []
  key_solid : Solid key
  key_plain : 0 ∉ key ∧ 0x3d ∉ key
  value_solid : Solid value
  value_plain : ∀ m ∈ markers, ¬ m <:+: value

namespace Setting

/-- What follows the value and its blanks. -/
def tail (s : Setting) : Str := s.comment.elim [] Trailer.bytes

/-- What follows the `=`. -/
def behind (s : Setting) : Str := s.ws2 ++ (s.value ++ (s.ws3 ++ s.tail))

def line (s : Setting) : Str := s.ws0 ++ (s.key ++ s.ws1) ++ 0x3d :: s.behind

variable (s : Setting)

theorem entryOf_line : entryOf s.line = (valueOf s.behind).map (s.key, ·) := by
  have hnone : (s.ws0 ++ (s.key ++ s.ws1)).findIdx? (· = 0x3d) = none := by
    rw [List.findIdx?_eq_none_iff]
    have blank {w : Str} (hw : Blank w) : ∀ b ∈ w, decide (b = 0x3d) = false := by
      intro b hb
      rw [decide_eq_false_iff_not]
      rintro rfl
      exact absurd (hw _ hb) (by decide)
    have hkey : ∀ b ∈ s.key, decide (b = 0x3d) = false := by
      intro b hb
      rw [decide_eq_false_iff_not]
      rintro rfl
      exact s.key_plain.2 hb
    simp only [List.forall_mem_append]
    exact ⟨blank s.blank0, hkey, blank s.blank1⟩
  have hfirst : s.line.findIdx? (· = 0x3d) = some (s.ws0 ++ (s.key ++ s.ws1)).length := by
    rw [line, List.findIdx?_append, hnone, List.findIdx?_cons]
    simp
  have hdrop : s.line.drop ((s.ws0 ++ (s.key ++ s.ws1)).length + 1) = s.behind := by
    rw [line, List.drop_append, List.drop_of_length_le (by omega)]
    simp
  simp only [entryOf, Option.bind_eq_bind, hfirst, Option.bind_some, hdrop]
  rw [line, List.take_left, keyOf_eq s.blank0 s.blank1 s.key_ne s.key_solid]
  cases valueOf s.behind <;> rfl

/-! ### What is assigned -/

/-- The value is taken as it is: the line is no section, and the comment, if there is one, is cut
off neither in the value nor behind its own first character. -/
def Gets : Prop :=
  sectionOf s.line = none ∧ s.value ≠ [] ∧
    ∀ t ∈ s.comment, s.ws2.length ≤ s.ws3.length + t.found ∧ t.found ≤ s.ws2.length + 1

/-- Nothing is assigned: the line is a section, or nothing is left of the value, or there is no
value and nothing is taken for one. -/
def Skipped : Prop :=
  (sectionOf s.line).isSome ∨
  (s.value ≠ [] ∧ ∃ t ∈ s.comment, s.value.length + s.ws3.length + t.found ≤ s.ws2.length) ∨
  (s.value = [] ∧ ∀ t ∈ s.comment, ∃ n ∈ markerIn (t.mark ++ t.text),
    n ≤ s.ws2.length + s.ws3.length + 1)

/-- What is assigned to the key, if anything is. -/
def assigned : Option Str := if sectionOf s.line = none then valueOf s.behind else none

theorem markerIn_nil : markerIn [] = none := by decide

/-- A value without a comment is taken whole. -/
theorem valueOf_behind_none (hne : s.value ≠ []) (hnone : s.comment = none) :
    valueOf s.behind = some s.value := by
  have htail : s.tail = [] := by rw [tail, hnone]; rfl
  have hhead : ∀ b ∈ (s.value ++ (s.ws3 ++ s.tail)).head?, isBlank b = false := by
    rw [List.head?_append_of_ne_nil _ hne]
    exact s.value_solid.1
  have hblank : ∀ b ∈ s.ws3.head?, isBlank b := fun b hb => s.blank3 b (List.mem_of_head? hb)
  have hmarker : markerIn (s.value ++ (s.ws3 ++ s.tail)) = none := by
    rw [htail, List.append_nil, markerIn_append_of_not_infix s.value_plain hblank,
      ← List.append_nil s.ws3, s.blank3.markerIn_append (by simp), markerIn_nil]
    rfl
  rw [behind, valueOf_eq s.blank2 (by simp [hne]) hhead, hmarker, htail, List.append_nil,
    rdropWhile_append s.value_solid.2 s.blank3]

/-- **A value with a comment.** -/
theorem valueOf_behind_some (hne : s.value ≠ []) {t : Trailer} (ht : s.comment = some t) :
    valueOf s.behind =
      if s.value.length + s.ws3.length + t.found ≤ s.ws2.length then none
      else some (((s.value ++ ((s.ws3 ++ [t.blank]) ++ (t.mark ++ t.text))).take
        (s.value.length + s.ws3.length + t.found - s.ws2.length)).rdropWhile isBlank) := by
  have htail : s.tail = t.bytes := by rw [tail, ht]; rfl
  have hhead : ∀ b ∈ (s.value ++ (s.ws3 ++ s.tail)).head?, isBlank b = false := by
    rw [List.head?_append_of_ne_nil _ hne]
    exact s.value_solid.1
  have hbytes : ∀ b ∈ t.bytes.head?, isBlank b := by
    rintro b hb
    cases hb
    exact t.isBlank
  have hblank : ∀ b ∈ (s.ws3 ++ t.bytes).head?, isBlank b := by
    intro b hb
    rcases List.mem_append.mp (List.mem_of_head? hb) with hb' | hb'
    · exact s.blank3 b hb'
    · cases hw : s.ws3 with
      | nil =>
          rw [hw] at hb
          exact hbytes b hb
      | cons c w =>
          rw [hw] at hb
          cases hb
          exact s.blank3 _ (by rw [hw]; exact List.mem_cons_self)
  have hmarker : markerIn (s.value ++ (s.ws3 ++ s.tail)) =
      some (s.value.length + s.ws3.length + t.found) := by
    rw [htail, markerIn_append_of_not_infix s.value_plain hblank,
      s.blank3.markerIn_append hbytes, t.markerIn_bytes]
    simp [Nat.add_assoc]
  rw [behind, valueOf_eq s.blank2 (by simp [hne]) hhead, hmarker, htail, Trailer.bytes]
  simp only [List.append_assoc, List.singleton_append]

theorem rdropWhile_ne_nil {r : Str} (hne : r ≠ []) (hr : ∀ b ∈ r.head?, isBlank b = false) :
    r.rdropWhile isBlank ≠ [] := by
  obtain ⟨b, r, rfl⟩ := List.exists_cons_of_ne_nil hne
  rw [ne_eq, List.rdropWhile_eq_nil_iff]
  intro h
  have hb := h b List.mem_cons_self
  rw [hr b rfl] at hb
  cases hb

/-- Without a value nothing is assigned. -/
theorem valueOf_behind_nil_none (hnil : s.value = []) (hnone : s.comment = none) :
    valueOf s.behind = none := by
  have hblank : Blank s.behind := by
    rw [behind, hnil, tail, hnone]
    exact s.blank2.append (by simpa using s.blank3)
  simp only [valueOf, hblank.findFirstNotOf_eq]
  rfl

/-- **Without a value the comment is taken for one**, unless another one is found in it. -/
theorem valueOf_behind_nil_some (hnil : s.value = []) {t : Trailer} (ht : s.comment = some t) :
    (valueOf s.behind = none ↔ ∃ n ∈ markerIn (t.mark ++ t.text),
      n ≤ s.ws2.length + s.ws3.length + 1) ∧ valueOf s.behind ≠ some [] := by
  have hbehind : s.behind = (s.ws2 ++ s.ws3 ++ [t.blank]) ++ (t.mark ++ t.text) := by
    rw [behind, hnil, tail, ht]
    simp [Trailer.bytes]
  have hblank : Blank (s.ws2 ++ s.ws3 ++ [t.blank]) :=
    (s.blank2.append s.blank3).append (by simpa [Blank] using t.isBlank)
  obtain ⟨d, mark, hmark, hd⟩ := t.mark_cons
  have hne : t.mark ++ t.text ≠ [] := by simp [hmark]
  have hhead : ∀ b ∈ (t.mark ++ t.text).head?, isBlank b = false := by simp [hmark, hd]
  have hlen : (s.ws2 ++ s.ws3 ++ [t.blank]).length = s.ws2.length + s.ws3.length + 1 := by
    simp [Nat.add_assoc]
  rw [hbehind, valueOf_eq hblank hne hhead, hlen]
  cases markerIn (t.mark ++ t.text) with
  | none =>
      have hstrip := rdropWhile_ne_nil hne hhead
      simpa using hstrip
  | some n =>
      by_cases hn : n ≤ s.ws2.length + s.ws3.length + 1
      · simp [hn]
      · have hstrip : ((t.mark ++ t.text).take (n - (s.ws2.length + s.ws3.length + 1))).rdropWhile
            isBlank ≠ [] := by
          refine rdropWhile_ne_nil ?_ ?_
          · simp only [ne_eq, List.take_eq_nil_iff, hne, or_false]
            omega
          · rw [List.head?_take]
            split
            · simp
            · exact hhead
        simpa [hn] using hstrip

/-- **What a setting assigns**: its value, or nothing, or something else. -/
theorem assigned_eq_iff :
    (s.assigned = some s.value ↔ s.Gets) ∧ (s.assigned = none ↔ s.Skipped) := by
  unfold assigned Gets Skipped
  cases hsect : sectionOf s.line with
  | some sect => simp
  | none =>
      simp only [if_true, Option.isSome_none, Bool.false_eq_true, false_or, true_and]
      by_cases hne : s.value = []
      · cases ht : s.comment with
        | none => simp [s.valueOf_behind_nil_none hne ht, hne]
        | some t =>
            obtain ⟨hnone, hnil⟩ := s.valueOf_behind_nil_some hne ht
            simp [hne, hnone, hnil]
      · cases ht : s.comment with
        | none => simp [s.valueOf_behind_none hne ht, hne]
        | some t =>
            obtain ⟨d, mark, hmark, hd⟩ := t.mark_cons
            have hblank : Blank (s.ws3 ++ [t.blank]) :=
              s.blank3.append (by simpa [Blank] using t.isBlank)
            rw [s.valueOf_behind_some hne ht]
            by_cases hcut : s.value.length + s.ws3.length + t.found ≤ s.ws2.length
            · have hpos := List.length_pos_iff.mpr hne
              simp [hcut, hne]
              omega
            · rw [if_neg hcut, Option.some.injEq, hmark, List.cons_append,
                rdropWhile_take_iff s.value_solid hblank hd]
              simp [hne]
              omega

end Setting

/-! ### What is read -/

/-- A line assigns to a key of the map. -/
def Assigns (ini : AnalyzeIni) (l mapkey : Str) : Prop :=
  sectionOf l = none ∧ ini.strSect ≠ [] ∧
    ∃ k v, entryOf l = some (k, v) ∧ mapKey ini.strSect k = mapkey

/-- None of the lines assigns to a key of the map. -/
def Untouched (ini : AnalyzeIni) (ls : List Str) (mapkey : Str) : Prop :=
  ∀ before l after, ls = before ++ l :: after → ¬ Assigns (ini.lines before) l mapkey

section

variable {ini : AnalyzeIni} {l mapkey : Str} {ls : List Str}

theorem get_line_of_not_assigns (h : ¬ Assigns ini l mapkey) :
    (ini.line l).map.get mapkey = ini.map.get mapkey := by
  unfold AnalyzeIni.line
  split
  · rfl
  · rename_i hsect
    split
    · rfl
    · rename_i hne
      split
      · rename_i k v hentry
        rw [IniStrMap.get_cons, if_neg]
        exact fun heq => h ⟨hsect, hne, k, v, hentry, heq⟩
      · rfl

/-- **A key that no line assigns to** keeps its value. -/
theorem Untouched.get_lines (h : Untouched ini ls mapkey) :
    (ini.lines ls).map.get mapkey = ini.map.get mapkey := by
  induction ls generalizing ini with
  | nil => rfl
  | cons l ls ih =>
      have hl := get_line_of_not_assigns (h [] l ls rfl)
      refine (ih fun before l' after heq => ?_).trans hl
      exact h (l :: before) l' after (by rw [heq, List.cons_append])

end

/-- The value that a setting leaves in a map. -/
theorem Setting.get_line (s : Setting) {ini : AnalyzeIni} (hne : ini.strSect ≠ []) :
    (ini.line s.line).map.get (mapKey ini.strSect s.key) =
      s.assigned.getD (ini.map.get (mapKey ini.strSect s.key)) := by
  unfold Setting.assigned
  cases hsect : sectionOf s.line with
  | some sect => simp [AnalyzeIni.line, hsect]
  | none =>
      cases hvalue : valueOf s.behind with
      | none => simp [AnalyzeIni.line, hsect, hne, s.entryOf_line, hvalue]
      | some v => simp [AnalyzeIni.line, hsect, hne, s.entryOf_line, hvalue]

/-- **When a value is read back whole**: of a file in which a line in a section sets the key, and
no line behind it does, just if that line assigns the value, or nothing where it was there
before. -/
theorem read_value_iff (s : Setting) {content : Str} {pre post : List Str}
    (hcontent : content.splitOn newline = pre ++ s.line :: post)
    (hread : Readable (AnalyzeIni.lines {} pre).strSect)
    (hpost : Untouched (AnalyzeIni.lines {} (pre ++ [s.line])) post
      (mapKey (AnalyzeIni.lines {} pre).strSect s.key)) :
    (openConf content).2.read (AnalyzeIni.lines {} pre).strSect s.key = s.value ↔
      s.Gets ∨ s.Skipped ∧
        (AnalyzeIni.lines {} pre).map.read (AnalyzeIni.lines {} pre).strSect s.key = s.value := by
  have hkey : cstr s.key = s.key := cstr_eq_self s.key_plain.1
  have hget := s.get_line hread.1
  have hfile : (openConf content).2 = ((AnalyzeIni.lines {} (pre ++ [s.line])).lines post).map := by
    rw [openConf, hcontent, ← AnalyzeIni.lines_append, List.append_assoc, List.singleton_append]
  have hline : AnalyzeIni.lines {} (pre ++ [s.line]) = (AnalyzeIni.lines {} pre).line s.line :=
    AnalyzeIni.lines_append ..
  rw [hfile, IniStrMap.read, IniStrMap.read, hkey, cstr_eq_self hread.2, hpost.get_lines, hline,
    hget]
  obtain ⟨hgets, hskipped⟩ := s.assigned_eq_iff
  rw [← hgets, ← hskipped]
  cases s.assigned <;> simp

/-- `key = value`, with these blanks before the value and behind it, and a comment. -/
def commented (ws2 ws3 : Str) (h2 : Blank ws2) (h3 : Blank ws3) : Setting where
  key := lit "key"
  value := lit "value"
  ws0 := []
  ws1 := lit " "
  ws2 := ws2
  ws3 := ws3
  comment := some ⟨0x20, lit "#", lit " c", by decide +kernel, by decide +kernel⟩
  blank0 := by simp [Blank]
  blank1 := by simp [Blank, lit, isBlank]
  blank2 := h2
  blank3 := h3
  key_ne := by decide +kernel
  key_solid := ⟨by decide +kernel, by decide +kernel⟩
  key_plain := by decide +kernel
  value_solid := ⟨by decide +kernel, by decide +kernel⟩
  value_plain := by decide +kernel

theorem read_value_iff_commented :
    (openConf (lit "[s]\nkey = value  # c")).2.read (lit "s") (lit "key") = lit "value" := by
  refine (@read_value_iff (commented (lit " ") (lit " ") (by decide +kernel) (by decide +kernel))
    (lit "[s]\nkey = value  # c") [lit "[s]"] [] (by decide +kernel) (by decide +kernel) ?_).mpr
    (.inl ?_)
  · intro before l after h
    simp at h
  · refine ⟨by decide +kernel, by decide +kernel, ?_⟩
    rintro t ⟨⟩
    decide +kernel

/-- The second blank before the value is cut off its end. -/
theorem not_read_blanks : ∃ s : Setting,
    lit "[s]\nkey =  value # c" = lit "[s]\n" ++ s.line ∧
    (openConf (lit "[s]\nkey =  value # c")).2.read (lit "s") s.key ≠ s.value := by
  refine ⟨commented (lit "  ") [] (by decide +kernel) (by decide +kernel), ?_, ?_⟩
  · decide +kernel
  · decide +kernel

end Realwork.Common
