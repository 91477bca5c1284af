import Mathlib.Data.Int.Order.Basic
import Mathlib.Data.List.Basic
import Mathlib.Data.List.TakeWhile

/-!
# Base — byte strings

The strings of the program (`std::string`, `RWCString`, `char*`) are byte strings: Shift_JIS or
EUC-JP text, decimal and hexadecimal numerals.  `Str` is a list of bytes; the functions here are
the members and library calls the program uses on them.
-/

namespace Realwork

/-- A byte string. -/
abbrev Str := List UInt8

/-- What holds of the 256 bytes holds of every byte. -/
theorem forall_byte {P : UInt8 → Prop} (h : ∀ n : Fin 256, P ⟨⟨n⟩⟩) (b : UInt8) : P b :=
  h b.toFin

/-- The bytes of an ASCII literal. -/
def lit (s : String) : Str := s.toList.map fun c => c.toNat.toUInt8

/-- What a `const char*` shows of a buffer: the bytes before the first NUL. -/
def cstr (s : Str) : Str := s.takeWhile (· != 0)

theorem cstr_eq_self {s : Str} (h : 0 ∉ s) : cstr s = s := by
  rw [cstr, List.takeWhile_eq_self_iff]
  intro b hb
  have : b ≠ 0 := fun h₀ => h (h₀ ▸ hb)
  simpa using this

/-- `isspace` in the C locale. -/
def isspace (b : UInt8) : Bool := b = 0x20 || (0x09 ≤ b && b ≤ 0x0d)

def isdigit (b : UInt8) : Bool := 0x30 ≤ b && b ≤ 0x39

def skipws (s : Str) : Str := s.dropWhile isspace

/-- `stream >> word`: skip white space, then take bytes up to the next white space. -/
def firstWord (s : Str) : Str := (skipws s).takeWhile fun b => !isspace b

/-- `string::substr`; `none` is `out_of_range`. -/
def substr (s : Str) (pos n : Nat) : Option Str :=
  if pos ≤ s.length then some ((s.drop pos).take n) else none

/-- An optional sign: whether it is a minus, and the bytes after it. -/
def sign : Str → Bool × Str
  | 0x2d :: s => (true, s)
  | 0x2b :: s => (false, s)
  | s => (false, s)

/-- The value of digits in base `base`. -/
def digitsValue (base : Nat) (value : UInt8 → Nat) (s : Str) : Nat :=
  s.foldl (fun n b => base * n + value b) 0

/-- `atoi`: `(int) strtol(s, NULL, 10)`, with a 64-bit `long` and a 32-bit `int`. -/
def atoi (s : Str) : Int :=
  let (neg, s) := sign (skipws s)
  let v : Int := digitsValue 10 (fun b => b.toNat - 0x30) (s.takeWhile isdigit)
  let long := max (-0x8000000000000000) (min 0x7fffffffffffffff (if neg then -v else v))
  long.bmod 0x100000000

/-- `stream << n` for an `int`. -/
def decimal (n : Int) : Str :=
  let digits := (Nat.toDigits 10 n.natAbs).map fun c => c.toNat.toUInt8
  if n < 0 then 0x2d :: digits else digits

example : atoi (lit " 012x") = 12 ∧ atoi (lit "-3") = -3 ∧ decimal (-40) = lit "-40" := by decide

end Realwork
