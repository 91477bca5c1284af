import Mathlib.Data.List.Basic
import Mathlib.Data.List.Infix
import Mathlib.Logic.Relation

/-!
# Lib — regular expressions with anchors

A regular expression over classes of letters, with assertions about the start and the end of the
text.  An expression relates the cursors between which it matches, so a part of a text is matched
in the text it stands in.

* `search_iff`: the matcher finds an expression in a text if it matches between two cursors.
* `Found.shrink`: what an expression is found in can be shrunk to a text of as many letters as the
  expression has letters outside repetitions.
-/

namespace Realwork.Lib

variable {κ α : Type}

/-- A regular expression over the classes `κ`. -/
inductive Regex (κ : Type) where
  | eps
  | atom (c : κ)
  | seq (r s : Regex κ)
  | alt (r s : Regex κ)
  | star (r : Regex κ)
  | bol
  | eol

/-- What the classes mean, and before which rests of a text it ends. -/
structure Reading (κ α : Type) where
  holds : κ → α → Bool
  ends : List α → Bool

/-- A place in a text. -/
@[ext] structure Cursor (α : Type) where
  before : List α
  after : List α

namespace Cursor

def text (p : Cursor α) : List α := p.before ++ p.after

/-- The cursor `n` letters into a text. -/
def at_ (text : List α) (n : Nat) : Cursor α := ⟨text.take n, text.drop n⟩

/-- `q` is `s` further on. -/
def Past (s : List α) (p q : Cursor α) : Prop :=
  p.after = s ++ q.after ∧ q.before = p.before ++ s

theorem at_length (p : Cursor α) : at_ p.text p.before.length = p := by
  ext1 <;> simp [at_, text]

@[simp] theorem past_nil {p q : Cursor α} : Past [] p q ↔ q = p := by
  constructor
  · rintro ⟨hafter, hbefore⟩
    ext1
    · simpa using hbefore
    · exact hafter.symm
  · rintro rfl
    exact ⟨rfl, (List.append_nil _).symm⟩

theorem Past.trans {s t : List α} {p m q : Cursor α} (h : Past s p m) (h' : Past t m q) :
    Past (s ++ t) p q :=
  ⟨by rw [h.1, h'.1, List.append_assoc], by rw [h'.2, h.2, List.append_assoc]⟩

theorem Past.text {s : List α} {p q : Cursor α} (h : Past s p q) : q.text = p.text := by
  rw [Cursor.text, Cursor.text, h.1, h.2, List.append_assoc]

end Cursor

namespace Regex

open Cursor

variable (M : Reading κ α)

/-- The expression matches what stands between the cursors. -/
def Sat : Regex κ → Cursor α → Cursor α → Prop
  | eps, p, q => q = p
  | atom c, p, q => ∃ a, M.holds c a = true ∧ Past [a] p q
  | seq r s, p, q => ∃ m, r.Sat p m ∧ s.Sat m q
  | alt r s, p, q => r.Sat p q ∨ s.Sat p q
  | star r, p, q => Relation.ReflTransGen r.Sat p q
  | bol, p, q => p.before = [] ∧ q = p
  | eol, p, q => M.ends p.after = true ∧ q = p

/-- The expression matches somewhere in the text. -/
def Found (r : Regex κ) (text : List α) : Prop :=
  ∃ p q : Cursor α, p.text = text ∧ r.Sat M p q

/-! ### The matcher -/

/-- The places reached with at most `n` steps of `f`. -/
def reach (f : Cursor α → List (Cursor α)) : Nat → Cursor α → List (Cursor α)
  | 0, p => [p]
  | n + 1, p => p :: (f p).flatMap (reach f n)

/-- The places up to which the expression matches. -/
def run : Regex κ → Cursor α → List (Cursor α)
  | eps, p => [p]
  | atom c, p =>
      match p.after with
      | [] => []
      | a :: after => if M.holds c a then [⟨p.before ++ [a], after⟩] else []
  | seq r s, p => (r.run p).flatMap s.run
  | alt r s, p => r.run p ++ s.run p
  | star r, p => reach r.run p.after.length p
  | bol, p => if p.before.isEmpty then [p] else []
  | eol, p => if M.ends p.after then [p] else []

def search (r : Regex κ) (text : List α) : Bool :=
  (List.range (text.length + 1)).any fun n => !(r.run M (at_ text n)).isEmpty

variable {M}

/-- A match goes forward. -/
theorem Sat.past {r : Regex κ} {p q : Cursor α} (h : r.Sat M p q) : ∃ s, Past s p q := by
  induction r generalizing p q with
  | eps => exact ⟨[], past_nil.mpr h⟩
  | atom c =>
      obtain ⟨a, -, ha⟩ := h
      exact ⟨[a], ha⟩
  | seq r s ihr ihs =>
      obtain ⟨m, hr, hs⟩ := h
      obtain ⟨u, hu⟩ := ihr hr
      obtain ⟨v, hv⟩ := ihs hs
      exact ⟨u ++ v, hu.trans hv⟩
  | alt r s ihr ihs => exact h.elim ihr ihs
  | star r ih =>
      induction h with
      | refl => exact ⟨[], past_nil.mpr rfl⟩
      | tail _ hstep ihsteps =>
          obtain ⟨u, hu⟩ := ihsteps
          obtain ⟨v, hv⟩ := ih hstep
          exact ⟨u ++ v, hu.trans hv⟩
  | bol => exact ⟨[], past_nil.mpr h.2⟩
  | eol => exact ⟨[], past_nil.mpr h.2⟩

/-- A step that goes nowhere can be left out, so as many steps are enough as there are letters. -/
theorem mem_reach {f : Cursor α → List (Cursor α)}
    (hf : ∀ p q, q ∈ f p → ∃ s, Past s p q) {n : Nat} {p q : Cursor α} (hn : p.after.length ≤ n) :
    q ∈ reach f n p ↔ Relation.ReflTransGen (fun p q => q ∈ f p) p q := by
  constructor
  · intro h
    clear hn
    induction n generalizing p with
    | zero =>
        rw [reach, List.mem_singleton] at h
        rw [h]
    | succ n ih =>
        rw [reach, List.mem_cons, List.mem_flatMap] at h
        rcases h with rfl | ⟨m, hm, hq⟩
        · rfl
        · exact (ih hq).head hm
  · intro h
    induction h using Relation.ReflTransGen.head_induction_on generalizing n with
    | refl => cases n <;> simp [reach]
    | @head p m hstep _ ih =>
        obtain ⟨s, hs⟩ := hf p m hstep
        have hlen : p.after.length = s.length + m.after.length := by
          rw [hs.1, List.length_append]
        cases s with
        | nil =>
            rw [past_nil] at hs
            rw [← hs]
            exact ih (hs ▸ hn)
        | cons a s =>
            obtain ⟨n, rfl⟩ : ∃ n', n = n' + 1 :=
              ⟨n - 1, by rw [List.length_cons] at hlen; omega⟩
            rw [List.length_cons] at hlen
            rw [reach, List.mem_cons, List.mem_flatMap]
            exact .inr ⟨m, hstep, ih (by omega)⟩

theorem mem_run {r : Regex κ} {p q : Cursor α} : q ∈ r.run M p ↔ r.Sat M p q := by
  induction r generalizing p q with
  | eps => simp [run, Sat]
  | atom c =>
      obtain ⟨before, after⟩ := p
      cases after with
      | nil => simp [run, Sat, Past]
      | cons a after =>
          have hcursor : q = ⟨before ++ [a], after⟩ ↔ Past [a] ⟨before, a :: after⟩ q := by
            rw [Cursor.ext_iff, Past, List.cons_append, List.nil_append, List.cons.injEq]
            constructor
            · rintro ⟨hbefore, hafter⟩
              exact ⟨⟨rfl, hafter.symm⟩, hbefore⟩
            · rintro ⟨⟨-, hafter⟩, hbefore⟩
              exact ⟨hbefore, hafter.symm⟩
          have hhead : ∀ b, Past [b] ⟨before, a :: after⟩ q → b = a := by
            rintro b ⟨hafter, -⟩
            exact (List.cons.inj hafter).1.symm
          rw [run, Sat]
          by_cases ha : M.holds c a = true
          · simp only [ha, if_true, List.mem_singleton, hcursor]
            constructor
            · exact fun hp => ⟨a, ha, hp⟩
            · rintro ⟨b, -, hp⟩
              exact hhead b hp ▸ hp
          · simp only [ha]
            refine iff_of_false (by simp) ?_
            rintro ⟨b, hb, hp⟩
            exact ha (hhead b hp ▸ hb)
  | seq r s ihr ihs => simp [run, Sat, ihr, ihs]
  | alt r s ihr ihs => simp [run, Sat, ihr, ihs]
  | star r ih =>
      have hrel : (fun p q => q ∈ r.run M p) = r.Sat M := by
        funext p q
        exact propext ih
      rw [run, mem_reach (fun p q hq => (ih.mp hq).past) le_rfl, hrel]
      rfl
  | bol => by_cases hp : p.before = [] <;> simp [run, Sat, hp]
  | eol => by_cases hp : M.ends p.after = true <;> simp [run, Sat, hp]

/-- **The matcher finds what matches.** -/
theorem search_iff {r : Regex κ} {text : List α} : r.search M text = true ↔ r.Found M text := by
  rw [search, List.any_eq_true]
  constructor
  · rintro ⟨n, -, hn⟩
    obtain ⟨q, hq⟩ := List.exists_mem_of_ne_nil (r.run M (at_ text n)) (by simpa using hn)
    exact ⟨at_ text n, q, List.take_append_drop n text, mem_run.mp hq⟩
  · rintro ⟨p, q, rfl, h⟩
    have hlt : p.before.length < p.text.length + 1 := by
      rw [Cursor.text, List.length_append]
      omega
    refine ⟨p.before.length, List.mem_range.mpr hlt, ?_⟩
    rw [at_length]
    simpa using List.ne_nil_of_mem (mem_run.mpr h)

/-! ### Shrinking a match -/

/-- The letters of an expression, each counted as its class is; a repetition can do without. -/
def letters (w : κ → Nat) : Regex κ → Nat
  | eps => 0
  | atom c => w c
  | seq r s => r.letters w + s.letters w
  | alt r s => r.letters w + s.letters w
  | star _ => 0
  | bol => 0
  | eol => 0

section

variable {w : κ → Nat} {text : List α}

variable (M w text) in
/-- The letters `s` of the text do what the match between the two cursors does, also where less
stands around them. -/
structure Shrunk (r : Regex κ) (p q : Cursor α) (s : List α) : Prop where
  length_le : s.length ≤ r.letters w
  mem : ∀ a ∈ s, a ∈ text
  nil : q = p → s = []
  sat : ∀ u v, (p.before = [] → u = []) → (q.after = [] → v = []) →
    r.Sat M ⟨u, s ++ v⟩ ⟨u ++ s, v⟩

/-- What matches nothing matches nothing wherever it may match at all. -/
theorem Shrunk.stay {r : Regex κ} {p q : Cursor α}
    (hr : ∀ u v, (p.before = [] → u = []) → (q.after = [] → v = []) → r.Sat M ⟨u, v⟩ ⟨u, v⟩) :
    Shrunk M w text r p q [] :=
  ⟨Nat.zero_le _, by simp, fun _ => rfl, by simpa using hr⟩

theorem Shrunk.seq {r s : Regex κ} {p m q : Cursor α} {x y : List α}
    (hr : r.Sat M p m) (hs : s.Sat M m q)
    (hx : Shrunk M w text r p m x) (hy : Shrunk M w text s m q y) :
    Shrunk M w text (r.seq s) p q (x ++ y) := by
  obtain ⟨x', hpm⟩ := hr.past
  obtain ⟨y', hmq⟩ := hs.past
  -- Nothing before the middle is nothing matched before it, and the same behind it.
  have hmiddle : m.before = [] → m = p := by
    intro hm
    rw [hpm.2, List.append_eq_nil_iff] at hm
    exact past_nil.mp (hm.2 ▸ hpm)
  have hrest : m.after = [] → q = m := by
    intro hm
    rw [hmq.1, List.append_eq_nil_iff] at hm
    exact past_nil.mp (hm.1 ▸ hmq)
  refine ⟨?_, ?_, ?_, ?_⟩
  · rw [List.length_append, letters]
    exact Nat.add_le_add hx.length_le hy.length_le
  · intro a ha
    exact (List.mem_append.mp ha).elim (hx.mem a) (hy.mem a)
  · rintro rfl
    have hlen : x'.length + y'.length = 0 := by
      have := congrArg List.length (hpm.trans hmq).1
      simp only [List.length_append] at this
      omega
    have hxnone : x' = [] := List.length_eq_zero_iff.mp (by omega)
    have hmq : m = q := past_nil.mp (hxnone ▸ hpm)
    rw [hx.nil hmq, hy.nil hmq.symm, List.append_nil]
  · intro u v hu hv
    refine ⟨⟨u ++ x, y ++ v⟩, ?_, ?_⟩
    · rw [List.append_assoc]
      refine hx.sat u (y ++ v) hu fun hm => ?_
      rw [hy.nil (hrest hm), hv (hrest hm ▸ hm), List.append_nil]
    · rw [← List.append_assoc]
      refine hy.sat (u ++ x) v (fun hm => ?_) hv
      rw [hx.nil (hmiddle hm), hu (hmiddle hm ▸ hm), List.append_nil]

/-- A match can be shrunk in its place, and then put where less stands around it. -/
theorem Sat.shrink (hw : ∀ c, ∀ a ∈ text, M.holds c a = true → 1 ≤ w c)
    (hnil : M.ends [] = true) (hends : ∀ v, v <:+ text → M.ends v = true → v = [])
    {r : Regex κ} {p q : Cursor α} (hp : p.after <:+ text) (h : r.Sat M p q) :
    ∃ s : List α, Shrunk M w text r p q s := by
  induction r generalizing p q with
  | eps => exact ⟨[], .stay fun _ _ _ _ => rfl⟩
  | atom c =>
      obtain ⟨a, ha, hpast⟩ := h
      have hmem : a ∈ text := hp.subset (by simp [hpast.1])
      refine ⟨[a], hw c a hmem ha, by simpa using hmem, ?_, fun u v _ _ => ⟨a, ha, rfl, rfl⟩⟩
      rintro rfl
      simpa using congrArg List.length hpast.1
  | seq r s ihr ihs =>
      obtain ⟨m, hr, hs⟩ := h
      obtain ⟨x', hpm⟩ := hr.past
      obtain ⟨x, hx⟩ := ihr hp hr
      obtain ⟨y, hy⟩ := ihs ((List.suffix_append x' m.after).trans (hpm.1 ▸ hp)) hs
      exact ⟨x ++ y, .seq hr hs hx hy⟩
  | alt r s ihr ihs =>
      rcases h with h | h
      · obtain ⟨x, hx⟩ := ihr hp h
        refine ⟨x, ?_, hx.mem, hx.nil, fun u v hu hv => .inl (hx.sat u v hu hv)⟩
        exact hx.length_le.trans (Nat.le_add_right _ _)
      · obtain ⟨x, hx⟩ := ihs hp h
        refine ⟨x, ?_, hx.mem, hx.nil, fun u v hu hv => .inr (hx.sat u v hu hv)⟩
        exact hx.length_le.trans (Nat.le_add_left _ _)
  | star r ih => exact ⟨[], .stay fun _ _ _ _ => .refl⟩
  | bol =>
      obtain ⟨hbefore, -⟩ := h
      exact ⟨[], .stay fun u v hu _ => ⟨hu hbefore, rfl⟩⟩
  | eol =>
      obtain ⟨hafter, rfl⟩ := h
      exact ⟨[], .stay fun u v _ hv => ⟨by rw [hv (hends _ hp hafter)]; exact hnil, rfl⟩⟩

/-- **A text can be shrunk** to as many letters as the expression has. -/
theorem Found.shrink (hw : ∀ c, ∀ a ∈ text, M.holds c a = true → 1 ≤ w c)
    (hnil : M.ends [] = true) (hends : ∀ v, v <:+ text → M.ends v = true → v = [])
    {r : Regex κ} (h : r.Found M text) :
    ∃ s : List α, s.length ≤ r.letters w ∧ (∀ a ∈ s, a ∈ text) ∧ r.Found M s := by
  obtain ⟨p, q, htext, hsat⟩ := h
  have hp : p.after <:+ text := htext ▸ List.suffix_append p.before p.after
  obtain ⟨s, hs⟩ := hsat.shrink hw hnil hends hp
  refine ⟨s, hs.length_le, hs.mem, ⟨[], s ++ []⟩, ⟨[] ++ s, []⟩, ?_,
    hs.sat [] [] (fun _ => rfl) fun _ => rfl⟩
  rw [Cursor.text, List.nil_append, List.append_nil]

end

/-! ### Expressions one after the other -/

/-- `r` and then the letters of the classes `cs`. -/
def atoms (r : Regex κ) (cs : List κ) : Regex κ := cs.foldl (fun r c => r.seq (atom c)) r

theorem sat_atoms {r : Regex κ} {cs : List κ} {p q : Cursor α} :
    (r.atoms cs).Sat M p q ↔
      ∃ m s, r.Sat M p m ∧ List.Forall₂ (fun c a => M.holds c a = true) cs s ∧ Past s m q := by
  induction cs generalizing r with
  | nil =>
      constructor
      · exact fun h => ⟨q, [], h, .nil, past_nil.mpr rfl⟩
      · rintro ⟨m, s, h, hs, hpast⟩
        cases hs
        rw [past_nil] at hpast
        exact hpast ▸ h
  | cons c cs ih =>
      rw [atoms, List.foldl_cons]
      refine ih.trans ?_
      constructor
      · rintro ⟨m, s, ⟨k, hk, a, ha, hpast⟩, hs, hpast'⟩
        exact ⟨k, a :: s, hk, .cons ha hs, hpast.trans hpast'⟩
      · rintro ⟨k, s, hk, hs, hafter, hbefore⟩
        cases hs with
        | cons ha hs =>
            rename_i a s
            exact ⟨⟨k.before ++ [a], s ++ q.after⟩, s, ⟨k, hk, a, ha, hafter, rfl⟩, hs, rfl,
              by rw [hbefore, List.append_assoc]; rfl⟩

end Regex

end Realwork.Lib
