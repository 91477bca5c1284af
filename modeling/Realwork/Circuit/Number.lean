import Mathlib.Data.Rat.Floor
import Realwork.Circuit.Varchar

/-!
# Circuit — numbers

`NUMBER` of PL/SQL, and the conversions it makes between numbers and texts.  NULL is `none`.

* `toNumber_decimal`, `numberText_natCast`: a numeral and its number.
-/

namespace Realwork.Circuit

open Lib

abbrev Number := Option Rat

/-- `10 ^ e` -/
def tenTo (e : Int) : Rat :=
  if 0 ≤ e then (Nat.pow 10 e.toNat : Nat) else 1 / (Nat.pow 10 (-e).toNat : Nat)

/-- The value of decimal digits. -/
def decimalValue (s : Str) : Nat := digitsValue 10 (fun b => b.toNat - 0x30) s

/-- The exponent behind the digits of a numeral, which is there with its digits or not at all. -/
def exponentOf : Str → Option Int
  | [] => some 0
  | e :: s =>
      let (neg, s) := sign s
      if (e = 0x45 ∨ e = 0x65) ∧ s ≠ [] ∧ s.all isdigit then
        some (if neg then -decimalValue s else decimalValue s)
      else none

/-- The digits behind the point, and the rest. -/
def fractionOf : Str → Str × Str
  | 0x2e :: s => (s.takeWhile isdigit, s.dropWhile isdigit)
  | s => ([], s)

/-- `TO_NUMBER(s)`, also where it is left out; `none` is an exception. -/
def toNumber (s : Str) : Option Number :=
  if s = [] then some none
  else
    let (neg, s) := sign ((s.dropWhile (· == 0x20)).rdropWhile (· == 0x20))
    let int := s.takeWhile isdigit
    let (fraction, s) := fractionOf (s.dropWhile isdigit)
    if int ++ fraction = [] then none
    else (exponentOf s).map fun e =>
      let q := (decimalValue (int ++ fraction) : Rat) * tenTo (e - fraction.length)
      some (if neg then -q else q)

/-- The digits of `r / d` behind the point, at most `n`. -/
def fractionDigits (d : Nat) : Nat → Nat → Str
  | 0, _ => []
  | n + 1, r => if r = 0 then [] else decimal (10 * r / d : Nat) ++ fractionDigits d n (10 * r % d)

/-- `TO_CHAR(x)`, also where it is left out. -/
def numberText : Number → Str
  | none => []
  | some q =>
      if q.den = 1 then decimal q.num
      else
        let int := q.num.natAbs / q.den
        (if q.num < 0 then lit "-" else []) ++ (if int = 0 then [] else decimal int) ++
          lit "." ++ fractionDigits q.den 40 (q.num.natAbs % q.den)

/-- `TRUNC(q)` -/
def trunc (q : Rat) : Int := if 0 ≤ q then ⌊q⌋ else ⌈q⌉

/-- `MOD(q, n)`, for an `n` that is not 0. -/
def modulo (q : Rat) (n : Nat) : Rat := q - n * trunc (q / n)

section

variable {n : Nat}

theorem numberText_natCast (n : Nat) : numberText (some (n : Rat)) = decimal n := by
  rw [numberText, if_pos (Rat.den_natCast n), Rat.num_natCast]

theorem decimalValue_decimal (n : Nat) : decimalValue (decimal n) = n := by
  have hvalue : decimalValue (decimal n) = Nat.ofDigitChars 10 (Nat.toDigits 10 n) 0 := by
    rw [decimalValue, digitsValue, decimal_natCast, List.foldl_map, Nat.ofDigitChars_eq_foldl]
    refine List.foldl_ext _ _ _ fun k c hc => ?_
    have hdigit := Nat.isDigit_of_mem_toDigits (by decide) (by decide) hc
    rw [Char.toNat_toUInt8 hdigit]
    rfl
  rw [hvalue, Nat.ofDigitChars_ten_toDigits]

/-- The digits of a numeral are not cut off it. -/
theorem isdigit_facts {s : Str} (h : ∀ b ∈ s, isdigit b = true) :
    s.takeWhile isdigit = s ∧ s.dropWhile isdigit = [] :=
  ⟨List.takeWhile_eq_self_iff.mpr h, List.dropWhile_eq_nil_iff.mpr h⟩

theorem toNumber_decimal (n : Nat) : toNumber (decimal n) = some (some (n : Rat)) := by
  have hne := decimal_ne_nil n
  have hdigits : ∀ b ∈ decimal n, isdigit b = true := fun b => isdigit_of_mem_decimal
  obtain ⟨htake, hdrop⟩ := isdigit_facts hdigits
  have hblank : ∀ b ∈ decimal n, (b == 0x20) = false := by
    intro b hb
    refine beq_eq_false_iff_ne.mpr ?_
    rintro rfl
    exact absurd (hdigits _ hb) (by decide)
  have hstrip : ((decimal n).dropWhile (· == 0x20)).rdropWhile (· == 0x20) = decimal n :=
    stripBy_of_clean (fun b hb => hblank b (List.mem_of_head? hb))
      fun b hb => hblank b (List.mem_of_getLast? hb)
  have hsign : sign (decimal n) = (false, decimal n) := by
    obtain ⟨b, s, heq⟩ := List.exists_cons_of_ne_nil hne
    have hb := hdigits b (heq ▸ List.mem_cons_self)
    rw [heq]
    unfold sign
    split
    · rename_i heq'
      cases heq'
      exact absurd hb (by decide)
    · rename_i heq'
      cases heq'
      exact absurd hb (by decide)
    · rfl
  rw [toNumber, if_neg hne, hstrip, hsign]
  simp only [htake, hdrop, fractionOf, List.append_nil, if_neg hne, exponentOf, Option.map_some,
    decimalValue_decimal]
  simp [tenTo]

theorem modulo_natCast (n : Nat) : modulo (n : Rat) 3 = (n % 3 : Nat) := by
  have hfloor : trunc ((n : Rat) / (3 : Nat)) = (n / 3 : Nat) := by
    rw [trunc, if_pos (by positivity), Rat.floor_natCast_div_natCast]
    rfl
  have hdiv : ((n % 3 : Nat) : Rat) + 3 * (n / 3 : Nat) = n := by
    exact_mod_cast Nat.mod_add_div n 3
  rw [modulo, hfloor, sub_eq_iff_eq_add, Int.cast_natCast]
  exact hdiv.symm

end

example : toNumber (lit " +1.50E1 ") = some (some 15) ∧
    numberText (some (-3 / 8)) = lit "-.375" := by decide +kernel

end Realwork.Circuit
