import Realwork.Base.Str
import Realwork.Lib.Regex

/-!
# Lib — patterns of Perl

The part of the pattern language that has a reading as a regular expression: letters, `.`, `\s`,
escaped signs, the anchors, groups, alternatives and the three short repetitions.  A pattern is
read byte by byte; what is outside this part has no reading here.

* `foldlM_step_plain`: plain bytes are read as letters, one after the other.
* `Reader.step_cases`: what one byte does; `Reader.plain_of_letters`: only plain bytes add a letter
  each to what has been read.
-/

namespace Realwork.Lib

inductive CharClass where
  | byte (b : UInt8)
  | any
  | space
  deriving DecidableEq

/-- `.` is not a newline, and `$` stands also before a final newline. -/
def perlReading : Reading CharClass UInt8 where
  holds
    | .byte b, a => a = b
    | .any, a => a ≠ 0x0a
    | .space, a => isspace a
  ends s := s = [] || s = [0x0a]

/-- `\w`. -/
def isword (b : UInt8) : Bool :=
  isdigit b || (0x41 ≤ b && b ≤ 0x5a) || (0x61 ≤ b && b ≤ 0x7a) || b = 0x5f

/-- The bytes that are not letters of a pattern: backslash, anchors, dot, bar, brackets and
repetitions. -/
def isOperator (b : UInt8) : Bool :=
  [0x5c, 0x5e, 0x24, 0x2e, 0x7c, 0x28, 0x29, 0x5b, 0x7b, 0x2a, 0x2b, 0x3f].contains b

/-- A group that is being read. -/
structure Level where
  alts : Option (Regex CharClass) := none
  body : Regex CharClass := .eps
  /-- What a repetition would be about. -/
  item : Option (Regex CharClass) := none

namespace Level

def branch (l : Level) : Regex CharClass :=
  match l.item with
  | none => l.body
  | some r => l.body.seq r

def alternatives (l : Level) : Regex CharClass :=
  match l.alts with
  | none => l.branch
  | some r => r.alt l.branch

def put (r : Regex CharClass) (l : Level) : Level := { l with body := l.branch, item := some r }

def anchor (r : Regex CharClass) (l : Level) : Level :=
  { l with body := l.branch.seq r, item := none }

def bar (l : Level) : Level := { alts := some l.alternatives }

def repeated (f : Regex CharClass → Regex CharClass) (l : Level) : Option Level :=
  l.item.map fun r => { l with body := l.body.seq (f r), item := none }

end Level

structure Reader where
  outer : List Level := []
  level : Level := {}
  /-- The last byte was a backslash. -/
  escaped : Bool := false

namespace Reader

def put (r : Regex CharClass) (s : Reader) : Reader := { s with level := s.level.put r }

/-- A byte that is not escaped. -/
def stepPlain (s : Reader) (b : UInt8) : Option Reader :=
  match b with
  | 0x5c => some { s with escaped := true }
  | 0x5e => some { s with level := s.level.anchor .bol }
  | 0x24 => some { s with level := s.level.anchor .eol }
  | 0x7c => some { s with level := s.level.bar }
  | 0x28 => some { s with outer := s.level :: s.outer, level := {} }
  | 0x29 =>
      match s.outer with
      | [] => none
      | l :: outer => some { s with outer, level := l.put s.level.alternatives }
  | 0x2a => (s.level.repeated .star).map fun level => { s with level }
  | 0x2b => (s.level.repeated fun r => r.seq r.star).map fun level => { s with level }
  | 0x3f => (s.level.repeated fun r => r.alt .eps).map fun level => { s with level }
  | 0x5b => none
  | 0x7b => none
  | 0x2e => some (s.put (.atom .any))
  | b => some (s.put (.atom (.byte b)))

/-- A byte after a backslash. -/
def stepEscaped (s : Reader) (b : UInt8) : Option Reader :=
  if b = 0x73 then some ({ s with escaped := false }.put (.atom .space))
  else if isword b then none
  else some ({ s with escaped := false }.put (.atom (.byte b)))

def step (s : Reader) (b : UInt8) : Option Reader :=
  if s.escaped then s.stepEscaped b else s.stepPlain b

def done (s : Reader) : Option (Regex CharClass) :=
  if s.escaped then none
  else
    match s.outer with
    | [] => some s.level.alternatives
    | _ :: _ => none

end Reader

/-- The reading of a pattern. -/
def readPattern (pattern : Str) : Option (Regex CharClass) :=
  (pattern.foldlM Reader.step {}).bind Reader.done

/-- An engine that knows the patterns that have a reading. -/
def perlEngine (pattern text : Str) : Option Bool :=
  (readPattern pattern).map fun r => r.search perlReading text

example : perlEngine (lit "^(ab|c.)*d?$") (lit "abcxd") = some true ∧
    perlEngine (lit "a\\.+$") (lit "a.b") = some false ∧
    perlEngine (lit "[a]") (lit "a") = none := by
  decide +kernel

/-- A bracket of the pattern has no partner, and up to there the pattern has a reading. -/
def Unmatched (pattern : Str) : Prop :=
  (∃ u v s, pattern = u ++ 0x29 :: v ∧ u.foldlM Reader.step {} = some s ∧ s.escaped = false ∧
    s.outer = []) ∨
  ∃ s, pattern.foldlM Reader.step {} = some s ∧ s.outer ≠ []

/-- An engine follows the reading of the patterns that have one, and refuses a pattern with an
unmatched bracket. -/
structure FollowsReading (engine : Str → Str → Option Bool) : Prop where
  reading : ∀ pattern r, readPattern pattern = some r →
    ∀ text, engine pattern text = some (r.search perlReading text)
  unmatched : ∀ pattern, Unmatched pattern → ∀ text, engine pattern text = none

theorem readPattern_unmatched {pattern : Str} (h : Unmatched pattern) :
    readPattern pattern = none := by
  rcases h with ⟨u, v, s, rfl, hread, hesc, houter⟩ | ⟨s, hread, houter⟩
  · have hstep : s.step 0x29 = none := by
      obtain ⟨outer, level, escaped⟩ := s
      cases hesc
      cases houter
      rfl
    rw [readPattern, List.foldlM_append, hread]
    show ((0x29 :: v).foldlM Reader.step s).bind Reader.done = none
    rw [List.foldlM_cons, hstep]
    rfl
  · rw [readPattern, hread, Option.bind_some, Reader.done]
    split
    · rfl
    · split
      · contradiction
      · rfl

theorem perlEngine_follows : FollowsReading perlEngine where
  reading pattern r h text := by rw [perlEngine, h, Option.map_some]
  unmatched pattern h text := by rw [perlEngine, readPattern_unmatched h, Option.map_none]

/-! ### Plain bytes -/

/-- Bytes that are read as one letter each. -/
def isPlain (b : UInt8) : Bool := !isOperator b || b = 0x2e

def classOf (b : UInt8) : CharClass := if b = 0x2e then .any else .byte b

theorem Level.alternatives_put {l : Level} (h : l.alts = none) (r : Regex CharClass) :
    (l.put r).alternatives = l.branch.seq r := by
  rw [alternatives, put, h]
  rfl

theorem Reader.step_plain {s : Reader} (hs : s.escaped = false) {b : UInt8}
    (hb : isPlain b = true) : s.step b = some (s.put (.atom (classOf b))) := by
  rw [step, hs, if_neg Bool.false_ne_true]
  unfold stepPlain
  split <;> first | exact absurd hb (by decide) | rfl | skip
  rename_i hdot
  rw [classOf, if_neg hdot]

/-- **Plain bytes are read as letters**, one after the other. -/
theorem foldlM_step_plain {s : Reader} (hs : s.escaped = false) {n : Str}
    (hn : ∀ b ∈ n, isPlain b = true) :
    ∃ level : Level, n.foldlM Reader.step s = some { s with level } ∧
      level.alts = s.level.alts ∧ level.branch = s.level.branch.atoms (n.map classOf) := by
  induction n generalizing s with
  | nil => exact ⟨s.level, rfl, rfl, rfl⟩
  | cons b n ih =>
      rw [List.forall_mem_cons] at hn
      obtain ⟨level, hread, halts, hbranch⟩ := @ih (s.put (.atom (classOf b))) hs hn.2
      refine ⟨level, ?_, halts, ?_⟩
      · rw [List.foldlM_cons, Reader.step_plain hs hn.1]
        exact hread
      · rw [hbranch, List.map_cons, Regex.atoms, Regex.atoms, List.foldl_cons]
        rfl

/-! ### The letters of what has been read -/

/-- White space is not counted. -/
def CharClass.weight : CharClass → Nat
  | .byte _ => 1
  | .any => 1
  | .space => 0

theorem CharClass.weight_le (c : CharClass) : CharClass.weight c ≤ 1 := by
  cases c with
  | byte b => exact Nat.le_refl 1
  | any => exact Nat.le_refl 1
  | space => exact Nat.zero_le 1

namespace Level

def letters (l : Level) : Nat :=
  (l.alts.elim 0 fun r => r.letters CharClass.weight) + l.body.letters CharClass.weight +
    (l.item.elim 0 fun r => r.letters CharClass.weight)

theorem letters_branch (l : Level) :
    l.branch.letters CharClass.weight =
      l.body.letters CharClass.weight + (l.item.elim 0 fun r => r.letters CharClass.weight) := by
  rw [branch]
  cases l.item <;> rfl

theorem letters_alternatives (l : Level) : l.alternatives.letters CharClass.weight = l.letters := by
  rw [alternatives, letters, Nat.add_assoc, ← letters_branch]
  cases l.alts with
  | none => exact (Nat.zero_add _).symm
  | some r => rfl

@[simp] theorem letters_put (l : Level) (r : Regex CharClass) :
    (l.put r).letters = l.letters + r.letters CharClass.weight := by
  rw [letters, letters, put, letters_branch]
  simp only [Option.elim_some]
  omega

@[simp] theorem letters_anchor (l : Level) (r : Regex CharClass) :
    (l.anchor r).letters = l.letters + r.letters CharClass.weight := by
  rw [letters, letters, anchor, Regex.letters, letters_branch]
  simp only [Option.elim_none]
  omega

@[simp] theorem letters_bar (l : Level) : l.bar.letters = l.letters := by
  rw [← letters_alternatives l]
  rfl

theorem letters_repeated {f : Regex CharClass → Regex CharClass}
    (hf : ∀ r, (f r).letters CharClass.weight ≤ r.letters CharClass.weight) {l l' : Level}
    (h : l.repeated f = some l') : l'.letters ≤ l.letters := by
  rw [repeated, Option.map_eq_some_iff] at h
  obtain ⟨r, hr, rfl⟩ := h
  have := hf r
  simp only [letters, hr, Option.elim_some, Option.elim_none, Regex.letters]
  omega

end Level

namespace Reader

def outerLetters : List Level → Nat
  | [] => 0
  | l :: outer => l.letters + outerLetters outer

/-- A backslash is counted for the letter that follows it. -/
def letters (s : Reader) : Nat :=
  outerLetters s.outer + s.level.letters + s.escaped.toNat

theorem letters_put (s : Reader) (r : Regex CharClass) :
    (s.put r).letters = s.letters + r.letters CharClass.weight := by
  simp only [letters, put, Level.letters_put]
  omega

/-- An operator other than the backslash and the dot adds nothing. -/
theorem stepPlain_operator {s s' : Reader} (hs : s.escaped = false) {b : UInt8}
    (hplain : ¬ isPlain b = true) (hb : b ≠ 0x5c) (h : s.stepPlain b = some s') :
    s'.escaped = false ∧ s'.letters ≤ s.letters := by
  -- A repetition leaves the levels around it alone.
  have hrepeated : ∀ {f : Regex CharClass → Regex CharClass},
      (∀ r, (f r).letters CharClass.weight ≤ r.letters CharClass.weight) →
      ((s.level.repeated f).map fun level => ({ s with level } : Reader)) = some s' →
      s'.escaped = false ∧ s'.letters ≤ s.letters := by
    intro f hf hmap
    rw [Option.map_eq_some_iff] at hmap
    obtain ⟨level, hlevel, rfl⟩ := hmap
    have := Level.letters_repeated hf hlevel
    exact ⟨hs, by simp only [letters]; omega⟩
  unfold stepPlain at h
  split at h
  · exact absurd rfl hb
  · cases h
    exact ⟨hs, by simp only [letters, Level.letters_anchor, Regex.letters]; omega⟩
  · cases h
    exact ⟨hs, by simp only [letters, Level.letters_anchor, Regex.letters]; omega⟩
  · cases h
    exact ⟨hs, by simp only [letters, Level.letters_bar]; omega⟩
  · cases h
    have hempty : Level.letters {} = 0 := rfl
    exact ⟨hs, by simp only [letters, outerLetters, hempty]; omega⟩
  · split at h
    · cases h
    · rename_i l outer houter
      cases h
      refine ⟨hs, ?_⟩
      simp only [letters, outerLetters, houter, Level.letters_put, Level.letters_alternatives]
      omega
  · exact hrepeated (fun r => Nat.zero_le _) h
  · exact hrepeated (fun r => by simp only [Regex.letters]; omega) h
  · exact hrepeated (fun r => by simp only [Regex.letters]; omega) h
  · cases h
  · cases h
  · exact absurd rfl hplain
  · refine absurd ?_ hplain
    simp_all [isPlain, isOperator]

/-- **What one byte does**: after a backslash it adds nothing more than that has; else it is a
backslash, a plain byte, or adds nothing. -/
theorem step_cases {s s' : Reader} {b : UInt8} (h : s.step b = some s') :
    (s.escaped = true ∧ s'.letters ≤ s.letters) ∨
      (s.escaped = false ∧ b = 0x5c ∧ s' = { s with escaped := true }) ∨
      (s.escaped = false ∧ isPlain b = true ∧ s' = s.put (.atom (classOf b))) ∨
      (s.escaped = false ∧ b ≠ 0x5c ∧ s'.escaped = false ∧ s'.letters ≤ s.letters) := by
  rw [step] at h
  cases hs : s.escaped with
  | true =>
      refine .inl ⟨rfl, ?_⟩
      have hdrop : ({ s with escaped := false } : Reader).letters + 1 = s.letters := by
        simp only [letters, hs, Bool.toNat_true, Bool.toNat_false]
      rw [hs, if_pos rfl, stepEscaped] at h
      split at h
      · cases h
        rw [letters_put, Regex.letters, CharClass.weight]
        omega
      · split at h
        · cases h
        · cases h
          rw [letters_put, Regex.letters, CharClass.weight]
          omega
  | false =>
      refine .inr ?_
      by_cases hplain : isPlain b = true
      · rw [← step, step_plain hs hplain] at h
        exact .inr (.inl ⟨rfl, hplain, (Option.some.inj h).symm⟩)
      · rw [hs, if_neg Bool.false_ne_true] at h
        by_cases hb : b = 0x5c
        · subst hb
          exact .inl ⟨rfl, rfl, (Option.some.inj h).symm⟩
        · obtain ⟨hs', hle⟩ := stepPlain_operator hs hplain hb h
          exact .inr (.inr ⟨rfl, hb, hs', hle⟩)

/-- A byte adds one letter at most. -/
theorem letters_step {s s' : Reader} {b : UInt8} (h : s.step b = some s') :
    s'.letters ≤ s.letters + 1 := by
  rcases step_cases h with ⟨-, hle⟩ | ⟨hs, -, rfl⟩ | ⟨-, -, rfl⟩ | ⟨-, -, -, hle⟩
  · omega
  · simp only [letters, hs, Bool.toNat_true, Bool.toNat_false]
    omega
  · rw [letters_put]
    exact Nat.add_le_add_left (CharClass.weight_le _) _
  · omega

theorem letters_foldlM {s s' : Reader} {n : Str} (h : n.foldlM step s = some s') :
    s'.letters ≤ s.letters + n.length := by
  induction n generalizing s with
  | nil =>
      cases h
      exact Nat.le_refl _
  | cons b n ih =>
      rw [List.foldlM_cons, Option.bind_eq_bind, Option.bind_eq_some_iff] at h
      obtain ⟨s₁, hstep, h⟩ := h
      have := letters_step hstep
      have := ih h
      rw [List.length_cons]
      omega

/-- **Only plain bytes add a letter each**, and a backslash at the end, for what will follow. -/
theorem plain_of_letters {s s' : Reader} (hs : s.escaped = false) {n : Str}
    (h : n.foldlM step s = some s') (hn : s.letters + n.length ≤ s'.letters) :
    (∀ b ∈ n, isPlain b = true) ∨ ∃ m, n = m ++ [0x5c] ∧ ∀ b ∈ m, isPlain b = true := by
  induction n generalizing s with
  | nil => exact .inl (by simp)
  | cons b n ih =>
      rw [List.foldlM_cons, Option.bind_eq_bind, Option.bind_eq_some_iff] at h
      obtain ⟨s₁, hstep, h⟩ := h
      have hle := letters_foldlM h
      rw [List.length_cons] at hn
      rcases step_cases hstep with ⟨hesc, -⟩ | ⟨-, rfl, hs₁⟩ | ⟨-, hb, rfl⟩ | ⟨-, -, -, hs₁⟩
      · rw [hs] at hesc
        cases hesc
      · cases n with
        | nil => exact .inr ⟨[], rfl, by simp⟩
        | cons c n =>
            -- The byte after the backslash adds nothing.
            rw [List.foldlM_cons, Option.bind_eq_bind, Option.bind_eq_some_iff] at h
            obtain ⟨s₂, hstep₂, h⟩ := h
            have hle₂ := letters_foldlM h
            have hle₁ := letters_step hstep
            rw [List.length_cons] at hn
            rcases step_cases hstep₂ with ⟨-, hs₂⟩ | ⟨hesc, -⟩ | ⟨hesc, -⟩ | ⟨hesc, -⟩
            · omega
            · simp [hs₁] at hesc
            · simp [hs₁] at hesc
            · simp [hs₁] at hesc
      · have hput := letters_put s (.atom (classOf b))
        have hweight : (Regex.atom (classOf b)).letters CharClass.weight ≤ 1 :=
          CharClass.weight_le _
        rcases @ih (s.put (.atom (classOf b))) hs h (by omega) with hplain | ⟨m, rfl, hplain⟩
        · exact .inl (List.forall_mem_cons.mpr ⟨hb, hplain⟩)
        · exact .inr ⟨b :: m, rfl, List.forall_mem_cons.mpr ⟨hb, hplain⟩⟩
      · omega

end Reader

end Realwork.Lib
