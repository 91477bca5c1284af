import Realwork.Receive.CstRecord

/-!
# Receive — the sub-units of a BTS

A network element of type `0006` or `0010` is a part of a BTS, which is one of type `0004`, and
is recorded as the BTS.  The number of the BTS stands in another place than that of its parts:
in the last digits of the number of the element, where a part has it in the additional number.

* `PartOf.sameValues`: `CstNode` gives the same values for the part and for the BTS.
* `subUnit_values`: so the same record is filled in, unless one of the two has no digit but 0 and
  is refused.
-/

namespace Realwork.Receive

/-! ### Hexadecimal digits -/

theorem not_isspace_of_isxdigit {b : UInt8} (h : isxdigit b) : isspace b = false :=
  forall_byte (P := fun b => isxdigit b → isspace b = false) (by decide +kernel) b h

/-- A text of hexadecimal digits. -/
def Hex (s : Str) : Prop := ∀ b ∈ s, isxdigit b

instance (s : Str) : Decidable (Hex s) := inferInstanceAs (Decidable (∀ b ∈ s, isxdigit b))

theorem Hex.of_all {s : Str} (h : s.all isxdigit = true) : Hex s := List.all_eq_true.mp h

theorem Hex.append {s t : Str} (hs : Hex s) (ht : Hex t) : Hex (s ++ t) := by
  intro b hb
  rcases List.mem_append.mp hb with h | h
  · exact hs b h
  · exact ht b h

theorem Hex.take {s : Str} (h : Hex s) (n : Nat) : Hex (s.take n) :=
  fun b hb => h b (List.mem_of_mem_take hb)

theorem Hex.drop {s : Str} (h : Hex s) (n : Nat) : Hex (s.drop n) :=
  fun b hb => h b (List.mem_of_mem_drop hb)

theorem Hex.skipws_eq {s : Str} (h : Hex s) : skipws s = s := by
  cases s with
  | nil => rfl
  | cons b s => simp [skipws, not_isspace_of_isxdigit (h b List.mem_cons_self)]

theorem Hex.firstWord_eq {s : Str} (h : Hex s) : firstWord s = s := by
  rw [firstWord, h.skipws_eq, List.takeWhile_eq_self_iff]
  intro b hb
  rw [not_isspace_of_isxdigit (h b hb)]
  rfl

theorem Hex.sign_eq {s : Str} (h : Hex s) : sign s = (false, s) := by
  unfold sign
  split
  · exact absurd (h 0x2d List.mem_cons_self) (by decide)
  · exact absurd (h 0x2b List.mem_cons_self) (by decide)
  · rfl

theorem Hex.hexPrefix_eq {s : Str} (h : Hex s) : hexPrefix s = s := by
  unfold hexPrefix
  split
  · exact absurd (h 0x78 (by simp)) (by decide)
  · exact absurd (h 0x58 (by simp)) (by decide)
  · rfl

/-- Of hexadecimal digits `HexStringToString` reads all. -/
theorem Hex.hexStringToString_eq {s : Str} (h : Hex s) (hne : s ≠ []) (env : Env) :
    hexStringToString env s = firstWord (decimal (digitsValue 16 xdigitValue s)) := by
  have hall : s.takeWhile isxdigit = s := List.takeWhile_eq_self_iff.mpr h
  simp [hexStringToString, h.skipws_eq, h.sign_eq, h.hexPrefix_eq, hall, hne]

theorem digitsValue_zeros {base : Nat} {value : UInt8 → Nat} (h₀ : value 0x30 = 0) (k : Nat)
    (s : Str) :
    digitsValue base value (List.replicate k 0x30 ++ s) = digitsValue base value s := by
  induction k with
  | zero => rfl
  | succ k ih =>
      rw [← ih]
      simp [digitsValue, List.replicate_succ, h₀]

/-- Zeros before a number do not change it. -/
theorem Hex.hexStringToString_zeros {s : Str} (h : Hex s) (hne : s ≠ []) (env : Env) (k : Nat) :
    hexStringToString env (List.replicate k 0x30 ++ s) = hexStringToString env s := by
  have hzeros : Hex (List.replicate k 0x30) := by
    intro b hb
    rw [List.eq_of_mem_replicate hb]
    decide
  rw [(hzeros.append h).hexStringToString_eq (by simp [hne]), h.hexStringToString_eq hne,
    digitsValue_zeros (by decide)]

/-! ### The numbers of a network element -/

/-- A number of 16 hexadecimal digits. -/
structure IsNumber (s : Str) : Prop where
  length : s.length = 16
  hex : Hex s

/-- The two numbers of an element that have no digit but 0. -/
def IsZero (neId subNeId : Str) : Prop :=
  neId = lit "0000000000000000" ∧ subNeId = lit "0000000000000000"

instance (s : Str) : Decidable (IsNumber s) :=
  decidable_of_iff (s.length = 16 ∧ Hex s) ⟨fun h => ⟨h.1, h.2⟩, fun h => ⟨h.1, h.2⟩⟩

instance (neId subNeId : Str) : Decidable (IsZero neId subNeId) :=
  inferInstanceAs (Decidable (_ ∧ _))

theorem IsNumber.digitsAt_length {s : Str} (h : IsNumber s) (pos n : Nat) (hn : pos + n ≤ 16) :
    (CstNode.digitsAt s pos n).length = n := by
  rw [CstNode.digitsAt, List.length_take, List.length_drop, h.length]
  omega

theorem IsNumber.digitsAt_hex {s : Str} (h : IsNumber s) (pos n : Nat) :
    Hex (CstNode.digitsAt s pos n) := (h.hex.drop pos).take n

theorem substr_append {s mid : Str} (pre post : Str) {pos n : Nat} (hs : s = pre ++ mid ++ post)
    (hpos : pre.length = pos) (hn : mid.length = n) : substr s pos n = some mid := by
  subst hs hpos hn
  simp [substr]

namespace CstNode

/-- What stands before the type in the number of a node. -/
def nodeHead (neId : Str) : Str :=
  lit "01000201" ++ (lit "00" ++ digitsAt neId 0 2) ++ lit "0000"

variable {env : Env} {neId subNeId neId' subNeId' neType : Str}

theorem nodeHead_length (hneId : IsNumber neId) : (nodeHead neId).length = 16 := by
  simp [nodeHead, hneId.digitsAt_length 0 2 (by decide), lit]

theorem nodeHead_hex (hneId : IsNumber neId) : Hex (nodeHead neId) := by
  have hhead : Hex (lit "01000201") := Hex.of_all rfl
  have hzeros : Hex (lit "00") ∧ Hex (lit "0000") := ⟨Hex.of_all rfl, Hex.of_all rfl⟩
  exact (hhead.append (hzeros.1.append (hneId.digitsAt_hex 0 2))).append hzeros.2

/-- What follows the type in the number of a node, before the additional number. -/
def serialNo (neId : Str) : Str := lit "0000" ++ digitsAt neId 12 4

/-- The node the constructor makes of two numbers that it takes, given the type. -/
def nodeOf (env : Env) (neId subNeId neType : Str) : CstNode :=
  let len := subNeIdLength neType
  { nodeId := nodeHead neId ++ neType ++ serialNo neId ++ subNeId.take len
    neType
    regionCode := lit "00" ++ digitsAt neId 0 2
    mms := if 0 < len then hexStringToString env (digitsAt subNeId 0 4) else []
    rnc := if 4 < len then hexStringToString env (digitsAt subNeId 4 2) else []
    bts := if 6 < len then hexStringToString env (digitsAt subNeId 6 2) else []
    serial := hexStringToString env (serialNo neId) }

theorem ofNeId_eq (hneId : IsNumber neId) (hsub : IsNumber subNeId) (h₀ : ¬ IsZero neId subNeId)
    (htype : getConfigNeType env (digitsAt neId 10 2) = neType) (hhex : Hex neType)
    (hne : neType ≠ lit "0000") :
    ofNeId env neId subNeId = .ok (nodeOf env neId subNeId neType) := by
  have hlength : ¬ (neId.length ≠ 16 ∨ subNeId.length ≠ 16) := by simp [hneId.length, hsub.length]
  have hserial : Hex (serialNo neId) := Hex.append (Hex.of_all rfl) (hneId.digitsAt_hex 12 4)
  -- no white space is written into the stream, so all of it is read again
  have hword : Hex (nodeHead neId ++ neType ++ serialNo neId ++
      subNeId.take (subNeIdLength neType)) :=
    (((nodeHead_hex hneId).append hhex).append hserial).append (hsub.hex.take _)
  have hnodeId := hword.firstWord_eq
  unfold ofNeId
  unfold IsZero at h₀
  rw [if_neg hlength, if_neg h₀]
  simp only [htype, if_neg hne]
  simp only [nodeHead, serialNo] at hnodeId
  simp only [nodeOf, nodeHead, serialNo, hnodeId]
  rfl

/-! ### The part and the BTS -/

/-- `neId'` and `subNeId'` are the numbers of the BTS that the element of `neId` and `subNeId`
is a part of. -/
structure PartOf (env : Env) (neId subNeId neId' subNeId' : Str) : Prop where
  part : getConfigNeType env (digitsAt neId 10 2) ∈ [lit "0006", lit "0010"]
  bts : getConfigNeType env (digitsAt neId' 10 2) = lit "0004"
  region : digitsAt neId' 0 2 = digitsAt neId 0 2
  number : digitsAt neId' 12 4 = lit "00" ++ digitsAt subNeId 6 2
  mmsRnc : subNeId'.take 6 = subNeId.take 6

/-- `FillRealworkRecord` takes the same from two nodes. -/
structure SameValues (env : Env) (node node' : CstNode) : Prop where
  nodeId : node.getCstNodeId = node'.getCstNodeId
  neType : node.getCstNeType = node'.getCstNeType
  serial : node.getCstSerial env = node'.getCstSerial env
  mms : node.mms = node'.mms
  rnc : node.rnc = node'.rnc
  bts : node.getCstBts = node'.getCstBts
  regionCode : node.getCstRegionCode env = node'.getCstRegionCode env

/-- **The number of a part** is cut out of it by positions, and is that of the BTS. -/
theorem getCstNodeId_part (hneId : IsNumber neId) (hsub : IsNumber subNeId)
    (hpart : neType ∈ [lit "0006", lit "0010"]) :
    (nodeOf env neId subNeId neType).getCstNodeId =
      some (nodeHead neId ++ lit "0004" ++ (lit "0000" ++ (lit "00" ++ digitsAt subNeId 6 2)) ++
        subNeId.take 6) := by
  have hlen : neType.length = 4 ∧ subNeIdLength neType = 8 := by
    rcases List.mem_pair.mp hpart with rfl | rfl <;> decide
  have hserial : (serialNo neId).length = 8 := by
    simp [serialNo, hneId.digitsAt_length 12 4 (by decide), lit]
  have hhead := nodeHead_length hneId
  have hmmsRnc : (subNeId.take 6).length = 6 := by simp [hsub.length]
  have hbts := hsub.digitsAt_length 6 2 (by decide)
  -- the additional number is MMS and RNC, then the BTS
  have hnumber : (nodeOf env neId subNeId neType).nodeId =
      nodeHead neId ++ neType ++ serialNo neId ++ subNeId.take 6 ++ digitsAt subNeId 6 2 := by
    simp only [nodeOf, hlen.2, digitsAt, List.append_assoc, ← List.take_add]
  have h₁ : substr (nodeOf env neId subNeId neType).nodeId 0 16 = some (nodeHead neId) :=
    substr_append [] (neType ++ serialNo neId ++ subNeId.take 6 ++ digitsAt subNeId 6 2)
      (by rw [hnumber]; simp only [List.append_assoc, List.nil_append]) rfl hhead
  have h₂ : substr (nodeOf env neId subNeId neType).nodeId 28 6 = some (subNeId.take 6) :=
    substr_append _ _ hnumber (by simp only [List.length_append, hhead, hlen.1, hserial]) hmmsRnc
  have h₃ : substr (nodeOf env neId subNeId neType).nodeId 34 2 = some (digitsAt subNeId 6 2) :=
    substr_append _ [] (by rw [hnumber, List.append_nil])
      (by simp only [List.length_append, hhead, hlen.1, hserial, hmmsRnc]) hbts
  have htype : (nodeOf env neId subNeId neType).neType = lit "0006" ∨
      (nodeOf env neId subNeId neType).neType = lit "0010" := List.mem_pair.mp hpart
  unfold getCstNodeId
  rw [if_pos htype, h₁, h₃, h₂]
  simp [lit]

theorem digitsAt_take (s : Str) {pos n m : Nat} (h : pos + n ≤ m) :
    digitsAt (s.take m) pos n = digitsAt s pos n := by
  rw [digitsAt, digitsAt, List.drop_take, List.take_take, Nat.min_eq_left (by omega)]

theorem PartOf.digitsAt_eq (h : PartOf env neId subNeId neId' subNeId') (pos n : Nat)
    (hn : pos + n ≤ 6) : digitsAt subNeId pos n = digitsAt subNeId' pos n := by
  rw [← digitsAt_take subNeId hn, ← h.mmsRnc, digitsAt_take subNeId' hn]

/-- **The serial number of the BTS** is the BTS number of its parts. -/
theorem PartOf.serial_eq (h : PartOf env neId subNeId neId' subNeId') (hsub : IsNumber subNeId) :
    hexStringToString env (digitsAt subNeId 6 2) = hexStringToString env (serialNo neId') := by
  have hbts := hsub.digitsAt_length 6 2 (by decide)
  have hne : digitsAt subNeId 6 2 ≠ [] := by
    intro hnil
    rw [hnil] at hbts
    exact absurd hbts (by decide)
  have hzeros : serialNo neId' = List.replicate 6 0x30 ++ digitsAt subNeId 6 2 := by
    rw [serialNo, h.number]
    rfl
  rw [hzeros, (hsub.digitsAt_hex 6 2).hexStringToString_zeros hne]

theorem PartOf.sameValues (h : PartOf env neId subNeId neId' subNeId') (hneId : IsNumber neId)
    (hsub : IsNumber subNeId) (hpart : neType ∈ [lit "0006", lit "0010"]) :
    SameValues env (nodeOf env neId subNeId neType) (nodeOf env neId' subNeId' (lit "0004")) := by
  have hserial := h.serial_eq hsub
  have hmms := congrArg (hexStringToString env) (h.digitsAt_eq 0 4 (by decide))
  have hrnc := congrArg (hexStringToString env) (h.digitsAt_eq 4 2 (by decide))
  have hregion : nodeHead neId' = nodeHead neId := by rw [nodeHead, nodeHead, h.region]
  have hnodeId : (nodeOf env neId' subNeId' (lit "0004")).getCstNodeId =
      some (nodeHead neId ++ lit "0004" ++ (lit "0000" ++ (lit "00" ++ digitsAt subNeId 6 2)) ++
        subNeId.take 6) := by
    rw [← hregion, ← h.number, ← h.mmsRnc]
    rfl
  refine ⟨(getCstNodeId_part hneId hsub hpart).trans hnodeId.symm, ?_, ?_, ?_, ?_, ?_, ?_⟩
  · rcases List.mem_pair.mp hpart with rfl | rfl <;> rfl
  · rcases List.mem_pair.mp hpart with rfl | rfl <;> exact congrArg pure hserial
  · rcases List.mem_pair.mp hpart with rfl | rfl <;> exact hmms
  · rcases List.mem_pair.mp hpart with rfl | rfl <;> exact hrnc
  · rcases List.mem_pair.mp hpart with rfl | rfl <;> exact hserial
  · simp only [getCstRegionCode, nodeOf, h.region]

/-- `CstNode` takes the numbers of both, and gives the same values. -/
theorem PartOf.nodes (h : PartOf env neId subNeId neId' subNeId') (hneId : IsNumber neId)
    (hsub : IsNumber subNeId) (hneId' : IsNumber neId') (hsub' : IsNumber subNeId')
    (h₀ : ¬ IsZero neId subNeId) (h₀' : ¬ IsZero neId' subNeId') :
    ∃ node node', ofNeId env neId subNeId = .ok node ∧ ofNeId env neId' subNeId' = .ok node' ∧
      SameValues env node node' := by
  have hpart : Hex (getConfigNeType env (digitsAt neId 10 2)) ∧
      getConfigNeType env (digitsAt neId 10 2) ≠ lit "0000" := by
    rcases List.mem_pair.mp h.part with he | he <;> rw [he] <;>
      exact ⟨Hex.of_all rfl, by decide⟩
  exact ⟨_, _, ofNeId_eq hneId hsub h₀ rfl hpart.1 hpart.2,
    ofNeId_eq hneId' hsub' h₀' h.bts (Hex.of_all rfl) (by decide),
    h.sameValues hneId hsub h.part⟩

end CstNode

/-! ### The record -/

open CstNode

variable {env : Env} {neId subNeId neId' subNeId' : Str}

/-- A child record for a network element. -/
def CstChildRecord.forNe (r : CstChildRecord) (neId subNeId : Str) : CstChildRecord :=
  { r with neId, subNeId }

/-- **`FillRealworkRecord`** has of the network element what it takes from `CstNode`. -/
theorem fillRealworkRecord_congr {node node' : CstNode} (hnode : ofNeId env neId subNeId = .ok node)
    (hnode' : ofNeId env neId' subNeId' = .ok node') (h : SameValues env node node')
    (r : CstChildRecord) : (r.forNe neId subNeId).fillRealworkRecord env =
      (r.forNe neId' subNeId').fillRealworkRecord env := by
  have hrealwork (nodeId serialno : Str) :
      (r.forNe neId subNeId).realwork env node nodeId serialno =
        (r.forNe neId' subNeId').realwork env node' nodeId serialno := by
    simp only [CstChildRecord.realwork, CstChildRecord.forNe, h.neType, h.mms, h.rnc, h.bts,
      h.regionCode]
  have hbody : (r.forNe neId subNeId).fillBody env = (r.forNe neId' subNeId').fillBody env := by
    -- the checks before the network element is looked at are on the rest of the record
    have hpass : (r.forNe neId subNeId).preDatePass env =
        (r.forNe neId' subNeId').preDatePass env := rfl
    have hof : ofNeId env (r.forNe neId subNeId).neId (r.forNe neId subNeId).subNeId = .ok node :=
      hnode
    have hof' : ofNeId env (r.forNe neId' subNeId').neId (r.forNe neId' subNeId').subNeId =
        .ok node' := hnode'
    unfold CstChildRecord.fillBody
    rw [hpass, hof, hof']
    simp only [Proc.ofExcept, pure_bind, h.nodeId, h.serial, hrealwork]
    rfl
  unfold CstChildRecord.fillRealworkRecord
  rw [hbody]

/-- **The sub-units of a BTS are recorded as their BTS.** -/
theorem subUnit_values (env : Env) {neId subNeId neId' subNeId' : Str}
    (hneId : IsNumber neId) (hsub : IsNumber subNeId) (hneId' : IsNumber neId')
    (hsub' : IsNumber subNeId') (hpart : PartOf env neId subNeId neId' subNeId')
    (h₀ : ¬ IsZero neId subNeId) (h₀' : ¬ IsZero neId' subNeId') :
    (∃ node node', ofNeId env neId subNeId = .ok node ∧ ofNeId env neId' subNeId' = .ok node' ∧
      SameValues env node node') ∧
    ∀ r : CstChildRecord, (r.forNe neId subNeId).fillRealworkRecord env =
      (r.forNe neId' subNeId').fillRealworkRecord env := by
  obtain ⟨node, node', hnode, hnode', hsame⟩ := hpart.nodes hneId hsub hneId' hsub' h₀ h₀'
  exact ⟨⟨node, node', hnode, hnode', hsame⟩, fillRealworkRecord_congr hnode hnode' hsame⟩

/-- A receiver for which `00` is a part of a BTS, and `01` a BTS. -/
def btsEnv : Env :=
  { plainEnv with
    readNeType := fun key =>
      if key = lit "00" then lit "0006" else if key = lit "01" then lit "0004" else [] }

theorem subUnit_values_one :
    (∃ node node',
      ofNeId btsEnv (lit "12aB00000000c0dE") (lit "0001022F00000000") = .ok node ∧
      ofNeId btsEnv (lit "120000000001002F") (lit "0001029900000000") = .ok node' ∧
      SameValues btsEnv node node') ∧
    ∀ r : CstChildRecord,
      (r.forNe (lit "12aB00000000c0dE") (lit "0001022F00000000")).fillRealworkRecord btsEnv =
        (r.forNe (lit "120000000001002F") (lit "0001029900000000")).fillRealworkRecord btsEnv :=
  subUnit_values btsEnv (by decide +kernel) (by decide +kernel) (by decide +kernel)
    (by decide +kernel)
    ⟨by decide, by decide, by decide, by decide, by decide⟩ (by decide) (by decide)

/-- A part that has no digit but 0 is refused, where its BTS is not. -/
theorem subUnit_values_zero :
    IsNumber (lit "0000000000000000") ∧ IsNumber (lit "0000000000010000") ∧
    PartOf btsEnv (lit "0000000000000000") (lit "0000000000000000") (lit "0000000000010000")
      (lit "0000000000000000") ∧
    (∃ node', ofNeId btsEnv (lit "0000000000010000") (lit "0000000000000000") = .ok node') ∧
    ¬ ∃ node node',
      ofNeId btsEnv (lit "0000000000000000") (lit "0000000000000000") = .ok node ∧
      ofNeId btsEnv (lit "0000000000010000") (lit "0000000000000000") = .ok node' ∧
      SameValues btsEnv node node' := by
  refine ⟨by decide +kernel, by decide +kernel,
    ⟨by decide, by decide, by decide, by decide, by decide⟩, ⟨_, rfl⟩, ?_⟩
  rintro ⟨node, node', hnode, -⟩
  cases hnode

end Realwork.Receive
