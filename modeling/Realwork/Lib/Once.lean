import Mathlib.Data.List.Nodup
import Mathlib.Data.List.Perm.Lattice

/-!
# Lib — pairs that are listed once

A pair is reported from one of its two ends, and a list has its text from the end that comes
first, so that the other report of it finds the text in the list.

* `mem_addOnce`, `nodup_addOnce`: what is put into a list unless it is there.
* `listedOnce_iff`: a pair is listed once exactly if all reports of it have one text.
-/

namespace Realwork.Lib

section

variable {ε : Type} [DecidableEq ε] {l : List ε} {e e' : ε}

/-- Put `e` at the end of the list, unless it is there. -/
def addOnce (l : List ε) (e : ε) : List ε := if e ∈ l then l else l ++ [e]

theorem mem_addOnce : e' ∈ addOnce l e ↔ e' ∈ l ∨ e' = e := by
  rw [addOnce]
  split
  · rename_i hmem
    refine ⟨.inl, ?_⟩
    rintro (h | rfl)
    · exact h
    · exact hmem
  · rw [List.mem_append, List.mem_singleton]

theorem nodup_addOnce (h : l.Nodup) (e : ε) : (addOnce l e).Nodup := by
  rw [addOnce]
  split
  · exact h
  · rename_i hnew
    exact List.nodup_append.mpr ⟨h, List.nodup_singleton e, fun a ha b hb =>
      fun hab => hnew (List.mem_singleton.mp hb ▸ hab ▸ ha)⟩

theorem mem_foldl_addOnce {es : List ε} : e ∈ es.foldl addOnce l ↔ e ∈ l ∨ e ∈ es := by
  induction es generalizing l with
  | nil => simp
  | cons e' es ih => rw [List.foldl_cons, ih, mem_addOnce, List.mem_cons, or_assoc]

theorem nodup_foldl_addOnce (h : l.Nodup) (es : List ε) : (es.foldl addOnce l).Nodup := by
  induction es generalizing l with
  | nil => exact h
  | cons e' es ih => exact ih (nodup_addOnce h e')

end

section

variable {γ ε : Type} (text : γ → ε) (swap : γ → γ) (first : γ → Bool)

/-- The text of a report, from the end that comes first. -/
def normalText (c : γ) : ε := if first c then text c else text (swap c)

/-- `c` and `c'` report one pair. -/
def SamePair (c c' : γ) : Prop := text c' = text c ∨ text c' = text (swap c)

/-- What a list has of a pair, from either end. -/
def entriesOf [DecidableEq ε] (c : γ) (l : List ε) : List ε :=
  l.filter fun e => e = text c ∨ e = text (swap c)

variable {text swap first} {c c' : γ}

theorem normalText_cases (c : γ) :
    normalText text swap first c = text c ∨ normalText text swap first c = text (swap c) := by
  rw [normalText]
  split
  · exact .inl rfl
  · exact .inr rfl

/-- The text of a report of the pair is a text of the pair, and only that of such a report is. -/
theorem samePair_iff (hinv : Function.Involutive swap)
    (hsame : ∀ c c', text c' = text c → text (swap c') = text (swap c)) :
    SamePair text swap c c' ↔ normalText text swap first c' = text c ∨
      normalText text swap first c' = text (swap c) := by
  have hback (h : text (swap c') = text (swap c)) : text c' = text c := by
    have h' := hsame _ _ h
    rwa [hinv, hinv] at h'
  have hcross (c c' : γ) (h : text c' = text (swap c)) : text (swap c') = text c := by
    have h' := hsame _ _ h
    rwa [hinv] at h'
  rcases @normalText_cases γ ε text swap first c' with hnormal | hnormal <;> rw [hnormal]
  · exact Iff.rfl
  · constructor
    · rintro (h | h)
      · exact .inr (hsame c c' h)
      · exact .inl (hcross c c' h)
    · rintro (h | h)
      · exact .inr (hcross c' c h.symm).symm
      · exact .inl (hback h)

variable [DecidableEq ε] {l : List ε}

/-- The entries of a pair are the texts of its reports. -/
theorem mem_entriesOf_iff {reports : List γ} {c : γ} {e : ε} (hinv : Function.Involutive swap)
    (hsame : ∀ c c', text c' = text c → text (swap c') = text (swap c))
    (hmem : ∀ e, e ∈ l ↔ ∃ c ∈ reports, normalText text swap first c = e) :
    e ∈ entriesOf text swap c l ↔
      ∃ c' ∈ reports, SamePair text swap c c' ∧ normalText text swap first c' = e := by
  rw [entriesOf, List.mem_filter, decide_eq_true_iff, hmem]
  constructor
  · rintro ⟨⟨c', hc', rfl⟩, htext⟩
    exact ⟨c', hc', (samePair_iff hinv hsame).mpr htext, rfl⟩
  · rintro ⟨c', hc', hpair, rfl⟩
    exact ⟨⟨c', hc', rfl⟩, (samePair_iff hinv hsame).mp hpair⟩

/-- **A pair is listed once** exactly if all reports of it have one text. -/
theorem listedOnce_iff {reports : List γ} (hinv : Function.Involutive swap)
    (hsame : ∀ c c', text c' = text c → text (swap c') = text (swap c)) (hnodup : l.Nodup)
    (hmem : ∀ e, e ∈ l ↔ ∃ c ∈ reports, normalText text swap first c = e) :
    (∀ c ∈ reports, (entriesOf text swap c l).length = 1) ↔
      ∀ c ∈ reports, ∀ c' ∈ reports, SamePair text swap c c' →
        normalText text swap first c' = normalText text swap first c := by
  constructor
  · intro honce c hc c' hc' hpair
    obtain ⟨e, he⟩ := List.length_eq_one_iff.mp (honce c hc)
    have h := (mem_entriesOf_iff hinv hsame hmem).mpr ⟨c, hc, .inl rfl, rfl⟩
    have h' := (mem_entriesOf_iff hinv hsame hmem).mpr ⟨c', hc', hpair, rfl⟩
    rw [he, List.mem_singleton] at h h'
    rw [h, h']
  · intro hone c hc
    have hperm : (entriesOf text swap c l).Perm [normalText text swap first c] := by
      refine (List.perm_ext_iff_of_nodup (hnodup.filter _) (List.nodup_singleton _)).mpr
        fun e => ?_
      rw [List.mem_singleton]
      refine (mem_entriesOf_iff hinv hsame hmem).trans ⟨?_, ?_⟩
      · rintro ⟨c', hc', hpair, rfl⟩
        exact hone c hc c' hc' hpair
      · rintro rfl
        exact ⟨c, hc, .inl rfl, rfl⟩
    exact hperm.length_eq

end

end Realwork.Lib
