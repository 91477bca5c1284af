import Mathlib.Data.List.Induction
import Mathlib.Data.Nat.Digits.Defs
import Realwork.Base.Decimal
import Realwork.Receive.SubUnit

/-!
# Receive — the network elements that are taken

`CstNode` looks at the lengths of the two numbers of a network element, at whether they have a
digit but 0, and at the type; it does not look at the other characters.  What it makes of them is
therefore the number they are only where they are hexadecimal digits, of which the letters may be
of either case.

* `ofNeId_eq_ok`: the node of two numbers that are taken.
* `ofNeId_decodes`: which values of it are decoded, and which serial numbers are the same.
-/

namespace Realwork.Receive

/-! ### Words -/

theorem length_takeWhile_iff {p : UInt8 → Bool} {s : Str} :
    (s.takeWhile p).length = s.length ↔ ∀ b ∈ s, p b := by
  rw [← List.takeWhile_eq_self_iff]
  exact ⟨(List.takeWhile_prefix p).eq_of_length, fun h => by rw [h]⟩

theorem skipws_suffix (s : Str) : skipws s <:+ s := List.dropWhile_suffix isspace

theorem firstWord_initial (s : Str) : firstWord s <+: skipws s :=
  List.takeWhile_prefix fun b => !isspace b

theorem skipws_eq_self {s : Str} (h : ∀ b ∈ s, isspace b = false) : skipws s = s := by
  cases s with
  | nil => rfl
  | cons b s => simp [skipws, h b List.mem_cons_self]

theorem firstWord_eq_self {s : Str} (h : ∀ b ∈ s, isspace b = false) : firstWord s = s := by
  rw [firstWord, skipws_eq_self h, List.takeWhile_eq_self_iff]
  intro b hb
  simp [h b hb]

/-- Reading a text as one word leaves out white space. -/
theorem length_firstWord_iff {s : Str} :
    (firstWord s).length = s.length ↔ ∀ b ∈ s, isspace b = false := by
  refine ⟨fun h => ?_, fun h => by rw [firstWord_eq_self h]⟩
  have hskip := (skipws_suffix s).length_le
  have hword := (firstWord_initial s).length_le
  have hs : skipws s = s := (skipws_suffix s).eq_of_length (by omega)
  rw [firstWord, hs, length_takeWhile_iff] at h
  simpa using h

/-! ### Hexadecimal numerals -/

/-- `tolower` in the C locale. -/
def tolower (b : UInt8) : UInt8 := if 0x41 ≤ b ∧ b ≤ 0x5a then b + 0x20 else b

theorem digitsValue_eq_ofDigits (base : Nat) (value : UInt8 → Nat) (s : Str) :
    digitsValue base value s = Nat.ofDigits base (s.reverse.map value) := by
  induction s using List.reverseRecOn with
  | nil => rfl
  | append_singleton s b ih =>
      rw [List.reverse_append, List.reverse_singleton, List.singleton_append, List.map_cons,
        Nat.ofDigits_cons, ← ih, digitsValue, digitsValue, List.foldl_append]
      simp [Nat.add_comm]

/-- The lower-case digit of a value. -/
def xdigit (n : Nat) : UInt8 := if n < 10 then n.toUInt8 + 0x30 else n.toUInt8 + 0x57

theorem xdigitValue_of_isxdigit {b : UInt8} (h : isxdigit b) :
    xdigitValue b < 16 ∧ xdigitValue (tolower b) = xdigitValue b ∧
      xdigit (xdigitValue b) = tolower b :=
  forall_byte (P := fun b => isxdigit b → xdigitValue b < 16 ∧
    xdigitValue (tolower b) = xdigitValue b ∧ xdigit (xdigitValue b) = tolower b)
    (by decide +kernel) b h

theorem Hex.map_xdigitValue_eq_iff {s t : Str} (hs : Hex s) (ht : Hex t) :
    s.map xdigitValue = t.map xdigitValue ↔ s.map tolower = t.map tolower := by
  have lower {s : Str} (h : Hex s) : s.map tolower = (s.map xdigitValue).map xdigit := by
    rw [List.map_map]
    exact List.map_congr_left fun b hb => (xdigitValue_of_isxdigit (h b hb)).2.2.symm
  have value {s : Str} (h : Hex s) : s.map xdigitValue = (s.map tolower).map xdigitValue := by
    rw [List.map_map]
    exact List.map_congr_left fun b hb => (xdigitValue_of_isxdigit (h b hb)).2.1.symm
  constructor
  · intro h
    rw [lower hs, lower ht, h]
  · intro h
    rw [value hs, value ht, h]

/-- Of one length, numerals of one value differ in the case of letters only. -/
theorem Hex.digitsValue_eq_iff {s t : Str} (hs : Hex s) (ht : Hex t)
    (hlength : s.length = t.length) :
    digitsValue 16 xdigitValue s = digitsValue 16 xdigitValue t ↔
      s.map tolower = t.map tolower := by
  rw [← hs.map_xdigitValue_eq_iff ht, digitsValue_eq_ofDigits, digitsValue_eq_ofDigits]
  have small {s : Str} (h : Hex s) : ∀ n ∈ s.reverse.map xdigitValue, n < 16 := by
    intro n hn
    obtain ⟨b, hb, rfl⟩ := List.mem_map.mp hn
    exact (xdigitValue_of_isxdigit (h b (List.mem_reverse.mp hb))).1
  constructor
  · intro h
    have hdigits := Nat.ofDigits_inj_of_len_eq (by decide) (by simpa using hlength) (small hs)
      (small ht) h
    rw [List.map_reverse, List.map_reverse] at hdigits
    exact List.reverse_inj.mp hdigits
  · intro h
    rw [List.map_reverse, List.map_reverse, h]

/-- `text` is the decimal numeral of the hexadecimal number `digits`. -/
def Numeral (digits text : Str) : Prop :=
  Hex digits ∧ text = decimal (digitsValue 16 xdigitValue digits)

/-- **`HexStringToString`** writes the number of its digits. -/
theorem numeral_hexStringToString (env : Env) {digits : Str} (hne : digits ≠ []) :
    Numeral digits (hexStringToString env digits) ↔ Hex digits := by
  refine ⟨fun h => h.1, fun h => ⟨h, ?_⟩⟩
  rw [h.hexStringToString_eq hne]
  refine firstWord_eq_self fun b hb => ?_
  exact not_isspace_of_isxdigit (by simp [isxdigit, isdigit_of_mem_decimal hb])

/-! ### The node -/

namespace CstNode

variable {env : Env} {neId subNeId neId' subNeId' : Str} {node node' : CstNode}

/-- **What the constructor takes, and what it makes of it**: the number of the node is read as one
word. -/
theorem ofNeId_eq_ok (h : ofNeId env neId subNeId = .ok node) :
    neId.length = 16 ∧ subNeId.length = 16 ∧
      getConfigNeType env (digitsAt neId 10 2) ≠ lit "0000" ∧
      node = { nodeOf env neId subNeId (getConfigNeType env (digitsAt neId 10 2)) with
        nodeId := firstWord
          (nodeOf env neId subNeId (getConfigNeType env (digitsAt neId 10 2))).nodeId } := by
  unfold ofNeId at h
  split at h
  case isTrue => cases h
  case isFalse hlength =>
    split at h
    case isTrue => cases h
    case isFalse =>
      simp only at h
      split at h
      case isTrue => cases h
      case isFalse htype =>
        cases h
        exact ⟨by omega, by omega, htype, rfl⟩

/-- Every value of the section of the types has four characters. -/
def FourCharacters (env : Env) : Prop :=
  ∀ key, env.readNeType key ≠ [] → (env.readNeType key).length = 4

theorem FourCharacters.getConfigNeType_length (h : FourCharacters env) (key : Str) :
    (getConfigNeType env key).length = 4 := by
  rw [getConfigNeType]
  split
  · rfl
  · exact h key ‹_›

/-- The characters of the two numbers and of the type that go into the number of the node. -/
def written (neId subNeId neType : Str) : Str :=
  digitsAt neId 0 2 ++ neType ++ digitsAt neId 12 4 ++ subNeId.take (subNeIdLength neType)

theorem nodeOf_nodeId_length {neType : Str} (hneId : neId.length = 16)
    (hsub : subNeId.length = 16) (htype : neType.length = 4) :
    (nodeOf env neId subNeId neType).nodeId.length = 28 + subNeIdLength neType := by
  have hle : subNeIdLength neType ≤ 8 := by
    unfold subNeIdLength
    split_ifs <;> decide
  simp only [nodeOf, nodeHead, serialNo, digitsAt, List.length_append, List.length_take,
    List.length_drop, hneId, hsub, htype]
  simp only [lit, List.length_map]
  simp
  omega

/-- The other characters are digits. -/
theorem noSpace_nodeId_iff {neType : Str} :
    (∀ b ∈ (nodeOf env neId subNeId neType).nodeId, isspace b = false) ↔
      ∀ b ∈ written neId subNeId neType, isspace b = false := by
  have hfixed : (∀ b ∈ lit "01000201", isspace b = false) ∧
      (∀ b ∈ lit "00", isspace b = false) ∧ ∀ b ∈ lit "0000", isspace b = false := by
    decide +kernel
  simp only [nodeOf, nodeHead, serialNo, written, List.forall_mem_append, iff_true_intro hfixed.1,
    iff_true_intro hfixed.2.1, iff_true_intro hfixed.2.2, true_and, and_true, and_assoc]

/-- **The length of the number of a node** is that of its type, unless white space is cut out. -/
theorem nodeId_length_iff (henv : FourCharacters env) (h : ofNeId env neId subNeId = .ok node) :
    node.nodeId.length = 28 + subNeIdLength node.neType ↔
      ∀ b ∈ written neId subNeId node.neType, isspace b = false := by
  obtain ⟨hneId, hsub, -, rfl⟩ := ofNeId_eq_ok h
  have htype := henv.getConfigNeType_length (digitsAt neId 10 2)
  have hlength := @nodeOf_nodeId_length env neId subNeId _ hneId hsub htype
  exact hlength ▸ length_firstWord_iff.trans noSpace_nodeId_iff

theorem numeral_serialNo (env : Env) (neId : Str) :
    Numeral (digitsAt neId 12 4) (hexStringToString env (serialNo neId)) ↔
      Hex (digitsAt neId 12 4) := by
  refine ⟨fun h => h.1, fun h => ⟨h, ?_⟩⟩
  have hzeros : lit "0000" = List.replicate 4 0x30 := by decide
  have hhex : Hex (serialNo neId) := Hex.append (Hex.of_all rfl) h
  have hne : serialNo neId ≠ [] := by simp [serialNo, lit]
  rw [((numeral_hexStringToString env hne).mpr hhex).2, serialNo, hzeros,
    digitsValue_zeros (by decide)]

theorem numeral_digitsAt (hsub : subNeId.length = 16) (env : Env) {pos n : Nat} (hn : 0 < n)
    (hpos : pos + n ≤ 16) :
    Numeral (digitsAt subNeId pos n) (hexStringToString env (digitsAt subNeId pos n)) ↔
      Hex (digitsAt subNeId pos n) := by
  refine numeral_hexStringToString env fun hnil => ?_
  have hlength := congrArg List.length hnil
  rw [digitsAt, List.length_take, List.length_drop, hsub] at hlength
  simp only [List.length_nil] at hlength
  omega

/-- MMS, RNC and BTS are cut out of the second number where the type has them. -/
theorem part_decodes (hsub : subNeId.length = 16) (env : Env) {pos n : Nat} (hn : 0 < n)
    (hpos : pos + n ≤ 16) {len : Nat} {text : Str}
    (htext : text = if pos < len then hexStringToString env (digitsAt subNeId pos n) else []) :
    if pos < len then Numeral (digitsAt subNeId pos n) text ↔ Hex (digitsAt subNeId pos n)
      else text = [] := by
  by_cases hlen : pos < len
  · rw [if_pos hlen] at htext ⊢
    rw [htext]
    exact numeral_digitsAt hsub env hn hpos
  · rw [if_neg hlen] at htext ⊢
    exact htext

/-- Where the serial digits of two elements are hexadecimal, they are told apart up to case. -/
theorem serial_eq_iff (h : ofNeId env neId subNeId = .ok node)
    (h' : ofNeId env neId' subNeId' = .ok node') (hhex : Hex (digitsAt neId 12 4))
    (hhex' : Hex (digitsAt neId' 12 4)) :
    node.serial = node'.serial ↔
      (digitsAt neId 12 4).map tolower = (digitsAt neId' 12 4).map tolower := by
  obtain ⟨hneId, -, -, rfl⟩ := ofNeId_eq_ok h
  obtain ⟨hneId', -, -, rfl⟩ := ofNeId_eq_ok h'
  have hserial := ((numeral_serialNo env neId).mpr hhex).2
  have hserial' := ((numeral_serialNo env neId').mpr hhex').2
  have hlength : (digitsAt neId 12 4).length = (digitsAt neId' 12 4).length := by
    simp [digitsAt, hneId, hneId']
  simp only [nodeOf]
  rw [hserial, hserial', decimal_natCast_inj, hhex.digitsValue_eq_iff hhex' hlength]

/-- **What `CstNode` decodes of the numbers it takes.**  The number of the node has its length
unless white space is cut out of it, and the texts of serial number, MMS, RNC and BTS are decimal
numerals of their digits just where these are hexadecimal. -/
theorem ofNeId_decodes (henv : FourCharacters env) (h : ofNeId env neId subNeId = .ok node) :
    (node.nodeId.length = 28 + subNeIdLength node.neType ↔
      ∀ b ∈ written neId subNeId node.neType, isspace b = false) ∧
    (Numeral (digitsAt neId 12 4) node.serial ↔ Hex (digitsAt neId 12 4)) ∧
    (if 0 < subNeIdLength node.neType then
      (Numeral (digitsAt subNeId 0 4) node.mms ↔ Hex (digitsAt subNeId 0 4))
      else node.mms = []) ∧
    (if 4 < subNeIdLength node.neType then
      (Numeral (digitsAt subNeId 4 2) node.rnc ↔ Hex (digitsAt subNeId 4 2))
      else node.rnc = []) ∧
    (if 6 < subNeIdLength node.neType then
      (Numeral (digitsAt subNeId 6 2) node.bts ↔ Hex (digitsAt subNeId 6 2))
      else node.bts = []) ∧
    ∀ (neId' subNeId' : Str) (node' : CstNode), ofNeId env neId' subNeId' = .ok node' →
      Hex (digitsAt neId 12 4) → Hex (digitsAt neId' 12 4) →
      (node.serial = node'.serial ↔
        (digitsAt neId 12 4).map tolower = (digitsAt neId' 12 4).map tolower) := by
  refine ⟨nodeId_length_iff henv h, ?_, ?_, ?_, ?_,
    fun neId' subNeId' node' h' => serial_eq_iff h h'⟩
  all_goals obtain ⟨-, hsub, -, rfl⟩ := ofNeId_eq_ok h
  · exact numeral_serialNo env neId
  · exact part_decodes hsub env (by decide) (by decide) rfl
  · exact part_decodes hsub env (by decide) (by decide) rfl
  · exact part_decodes hsub env (by decide) (by decide) rfl

theorem fourCharacters_btsEnv : FourCharacters btsEnv := by
  intro key h
  simp only [btsEnv] at h ⊢
  split_ifs at h ⊢ <;> first | rfl | exact absurd rfl h

theorem ofNeId_decodes_one :
    ∃ node, ofNeId btsEnv (lit "12aB00000001c0dE") (lit "0001022F00000000") = .ok node ∧
      node.nodeId.length = 28 + subNeIdLength node.neType ∧
      Numeral (digitsAt (lit "12aB00000001c0dE") 12 4) node.serial := by
  have hok : ∃ node, ofNeId btsEnv (lit "12aB00000001c0dE") (lit "0001022F00000000") = .ok node :=
    ⟨_, rfl⟩
  obtain ⟨node, h⟩ := hok
  have hdecodes := ofNeId_decodes fourCharacters_btsEnv h
  refine ⟨node, h, hdecodes.1.mpr ?_, hdecodes.2.1.mpr (Hex.of_all rfl)⟩
  cases h
  decide +kernel

/-- Characters that are no digits are taken, into the serial number or out of the number of the
node, and letters of either case give one serial number. -/
theorem ofNeId_not_decodes :
    FourCharacters btsEnv ∧
    (∃ node, ofNeId btsEnv (lit "12000000000100z1") (lit "0001022F00000000") = .ok node ∧
      ¬ Numeral (digitsAt (lit "12000000000100z1") 12 4) node.serial) ∧
    (∃ node, ofNeId btsEnv (lit "1 00000000010001") (lit "0001022F00000000") = .ok node ∧
      node.nodeId.length ≠ 28 + subNeIdLength node.neType) ∧
    ∃ node node', ofNeId btsEnv (lit "120000000001000a") (lit "0001022F00000000") = .ok node ∧
      ofNeId btsEnv (lit "120000000001000A") (lit "0001022F00000000") = .ok node' ∧
      digitsAt (lit "120000000001000a") 12 4 ≠ digitsAt (lit "120000000001000A") 12 4 ∧
      node.serial = node'.serial := by
  refine ⟨fourCharacters_btsEnv, ⟨_, rfl, fun h => ?_⟩, ⟨_, rfl, by decide⟩,
    _, _, rfl, rfl, by decide, by decide⟩
  exact absurd h.1 (by decide +kernel)

end CstNode

end Realwork.Receive
