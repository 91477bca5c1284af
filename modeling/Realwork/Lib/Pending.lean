import Mathlib.Data.List.Basic

/-!
# Lib — what is pending

A trace opens things, and flushes all that are open; what has been opened since it was flushed
last is pending.

* `pendingLe_append`, `pendingLe_flush`: a bound on what is pending, as the trace goes on.
* `flushed_of_pending_eq_zero`: when nothing is pending, all that has been opened was flushed.
-/

namespace Realwork.Lib

section

variable {ε : Type} (opens flushes : ε → Bool)

def pendingAfter (n : Nat) (e : ε) : Nat := if flushes e then 0 else if opens e then n + 1 else n

/-- How many have been opened since the last flush. -/
def pending (trace : List ε) : Nat := trace.foldl (pendingAfter opens flushes) 0

/-- At no time more than `max` are pending. -/
def PendingLe (max : Nat) (trace : List ε) : Prop :=
  ∀ past, past <+: trace → pending opens flushes past ≤ max

variable {opens flushes} {trace es : List ε} {max : Nat}

theorem pending_append (trace es : List ε) :
    pending opens flushes (trace ++ es) =
      es.foldl (pendingAfter opens flushes) (pending opens flushes trace) := List.foldl_append

theorem pending_flush {e : ε} (he : flushes e = true) :
    pending opens flushes (trace ++ [e]) = 0 := by
  rw [pending_append, List.foldl_cons, pendingAfter, if_pos he]
  rfl

/-- Without a flush, what is opened becomes pending. -/
theorem foldl_pendingAfter (h : ∀ e ∈ es, flushes e = false) (n : Nat) :
    es.foldl (pendingAfter opens flushes) n = n + es.countP opens := by
  induction es generalizing n with
  | nil => rfl
  | cons e es ih =>
      rw [List.forall_mem_cons] at h
      rw [List.foldl_cons, ih h.2, pendingAfter, h.1, if_neg Bool.false_ne_true, List.countP_cons]
      split <;> omega

theorem pending_append_of_not_flushes (h : ∀ e ∈ es, flushes e = false) :
    pending opens flushes (trace ++ es) = pending opens flushes trace + es.countP opens := by
  rw [pending_append, foldl_pendingAfter h]

/-- Without a flush, the most are pending in the end. -/
theorem pendingLe_append (h : ∀ e ∈ es, flushes e = false) :
    PendingLe opens flushes max (trace ++ es) ↔
      PendingLe opens flushes max trace ∧ pending opens flushes (trace ++ es) ≤ max := by
  constructor
  · exact fun hle => ⟨fun past hpast => hle past (hpast.trans (List.prefix_append ..)),
      hle _ List.prefix_rfl⟩
  · rintro ⟨htrace, hend⟩ past hpast
    rw [pending_append_of_not_flushes h] at hend
    obtain ⟨rest, heq⟩ := hpast
    rcases List.append_eq_append_iff.mp heq with ⟨more, rfl, -⟩ | ⟨some, rfl, rfl⟩
    · exact htrace past (List.prefix_append ..)
    · rw [pending_append_of_not_flushes fun e he => h e (List.mem_append_left _ he)]
      rw [List.countP_append] at hend
      omega

theorem pendingLe_flush {e : ε} (he : flushes e = true) :
    PendingLe opens flushes max (trace ++ [e]) ↔ PendingLe opens flushes max trace := by
  constructor
  · exact fun hle past hpast => hle past (hpast.trans (List.prefix_append ..))
  · intro hle past hpast
    rcases List.prefix_concat_iff.mp hpast with rfl | hpast
    · rw [pending_flush he]
      exact Nat.zero_le _
    · exact hle past hpast

/-- **What is not pending has been flushed.** -/
theorem flushed_of_pending_eq_zero (hzero : pending opens flushes trace = 0) {e : ε} {u v : List ε}
    (htrace : trace = u ++ e :: v) (hopen : opens e = true) (hflush : flushes e = false) :
    ∃ f ∈ v, flushes f = true := by
  by_contra hnone
  simp only [not_exists, not_and, Bool.not_eq_true] at hnone
  have hev : ∀ f ∈ e :: v, flushes f = false := List.forall_mem_cons.mpr ⟨hflush, hnone⟩
  rw [htrace, pending_append_of_not_flushes hev, List.countP_cons_of_pos hopen] at hzero
  omega

end

end Realwork.Lib
