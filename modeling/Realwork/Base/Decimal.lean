import Realwork.Base.Str

/-!
# Base — decimal numerals

The bytes of the numerals the program writes, and that a numeral determines its number.
-/

namespace Realwork

theorem decimal_natCast (n : Nat) :
    decimal n = (Nat.toDigits 10 n).map fun c => c.toNat.toUInt8 := by
  rw [decimal, if_neg (by omega)]
  rfl

theorem Char.toNat_toUInt8 {c : Char} (h : c.isDigit) : c.toNat.toUInt8.toNat = c.toNat := by
  have hc : 48 ≤ c.toNat ∧ c.toNat ≤ 57 := by
    simpa [Char.isDigit, UInt32.le_iff_toNat_le] using h
  simp only [Nat.toUInt8, UInt8.toNat_ofNat']
  omega

theorem Char.isDigit_toUInt8 {c : Char} (h : c.isDigit) :
    isdigit c.toNat.toUInt8 ∧ Char.ofNat c.toNat.toUInt8.toNat = c := by
  have hc : 48 ≤ c.toNat ∧ c.toNat ≤ 57 := by
    simpa [Char.isDigit, UInt32.le_iff_toNat_le] using h
  have hbyte := Char.toNat_toUInt8 h
  refine ⟨?_, by rw [hbyte, Char.ofNat_toNat]⟩
  simp only [isdigit, UInt8.le_iff_toNat_le, hbyte, Bool.and_eq_true, decide_eq_true_eq]
  exact hc

theorem isdigit_of_mem_decimal {n : Nat} {b : UInt8} (h : b ∈ decimal n) : isdigit b := by
  rw [decimal_natCast] at h
  obtain ⟨c, hc, rfl⟩ := List.mem_map.mp h
  exact (Char.isDigit_toUInt8 (Nat.isDigit_of_mem_toDigits (by decide) (by decide) hc)).1

theorem decimal_natCast_inj {n m : Nat} : decimal n = decimal m ↔ n = m := by
  refine ⟨fun h => ?_, fun h => by rw [h]⟩
  -- every character of the numeral is a digit, and comes back from its byte
  have hback (n : Nat) : (decimal n).map (fun b => Char.ofNat b.toNat) = Nat.toDigits 10 n := by
    rw [decimal_natCast, List.map_map]
    refine (List.map_congr_left fun c hc => ?_).trans (List.map_id _)
    exact (Char.isDigit_toUInt8 (Nat.isDigit_of_mem_toDigits (by decide) (by decide) hc)).2
  have hdigits : Nat.toDigits 10 n = Nat.toDigits 10 m := by rw [← hback, h, hback]
  have hvalue := congrArg (Nat.ofDigitChars 10 · 0) hdigits
  simpa [Nat.ofDigitChars_ten_toDigits] using hvalue

/-- A greater number has no shorter numeral. -/
theorem length_decimal_le {n m : Nat} (h : n ≤ m) : (decimal n).length ≤ (decimal m).length := by
  rw [decimal_natCast, decimal_natCast, List.length_map, List.length_map]
  have hpos : 0 < (Nat.toDigits 10 m).length := List.length_pos_iff.mpr Nat.toDigits_ne_nil
  rw [Nat.length_toDigits_le_iff (by decide) hpos]
  exact h.trans_lt ((Nat.length_toDigits_le_iff (by decide) hpos).mp le_rfl)

theorem decimal_of_neg {n : Int} (h : n < 0) : decimal n = 0x2d :: decimal n.natAbs := by
  rw [decimal, if_pos h, decimal_natCast]

/-- A numeral has a sign and digits only. -/
theorem mem_decimal {n : Int} {b : UInt8} (h : b ∈ decimal n) : b = 0x2d ∨ isdigit b := by
  by_cases hn : n < 0
  · rw [decimal_of_neg hn, List.mem_cons] at h
    exact h.imp_right isdigit_of_mem_decimal
  · obtain ⟨m, rfl⟩ := Int.eq_ofNat_of_zero_le (Int.not_lt.mp hn)
    exact .inr (isdigit_of_mem_decimal h)

end Realwork
