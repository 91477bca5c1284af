import Realwork.Circuit.Number
import Realwork.Lib.Loop

/-!
# Circuit — slot numbers

`convertTimeslotVC4ToNonVC4` and `convertTimeslotNonVC4ToVC4` of `circuit_discovery.plsql`: the
numbers of the slots of a list by VC4, and by STS1, where every third one begins a VC4.

* `toNonVC4_ends`, `cutNumbers_ends`: the loops that cut a text into its numbers end.
* `convertTimeslotVC4ToNonVC4_slotText`, `convertTimeslotNonVC4ToVC4_slotText`: a list of slots.
* `timeslot_roundTrip`: what the two functions make of a list one after the other.
-/

namespace Realwork.Circuit

open Lib

/-! ### From numbers by VC4 -/

/-- `to_number(timeSlot) * 3 - 2`, as a text. -/
def timesThreeMinusTwo (timeSlot : Str) : Option Str :=
  (toNumber timeSlot).map fun slot => numberText (slot.map fun q => q * 3 - 2)

/-- The variables of the loop of `convertTimeslotVC4ToNonVC4`. -/
structure ToNonVC4 where
  vStart : Nat := 1
  vFirst : Bool := true
  convertedSts1Map : Str := []

/-- The new `convertedSts1Map`. -/
def ToNonVC4.append (s : ToNonVC4) (timeSlot : Str) : Option Str := do
  let convertedTimeSlot ← varchar2 4 timeSlot
  let slot ← timesThreeMinusTwo convertedTimeSlot
  varchar2 800 (if s.vFirst then slot else s.convertedSts1Map ++ ampersand :: slot)

/-- A round of the loop; it is left with the map, or with an exception. -/
def toNonVC4Round (timeSlot : Str) (s : ToNonVC4) : ToNonVC4 ⊕ Option Str :=
  let vEnd := instrFrom timeSlot ampersand s.vStart
  if 0 < vEnd then
    match s.append (substrOf timeSlot s.vStart (vEnd - s.vStart)) with
    | some map => .inl { vStart := vEnd + 1, vFirst := false, convertedSts1Map := map }
    | none => .inr none
  else .inr (s.append (substr timeSlot s.vStart))

/-- `convertTimeslotVC4ToNonVC4`; `none` is an exception. -/
def convertTimeslotVC4ToNonVC4 (timeSlot : Str) : Option Str :=
  -- the place of `&` in NULL is NULL
  if timeSlot ≠ [] ∧ instr timeSlot ampersand = 0 then timesThreeMinusTwo timeSlot
  else (rounds (toNonVC4Round timeSlot) (timeSlot.length + 1) {}).join

/-- **The loop ends.** -/
theorem toNonVC4_ends (timeSlot : Str) :
    ∃ result, rounds (toNonVC4Round timeSlot) (timeSlot.length + 1) {} = some result := by
  have hnext (s s' : ToNonVC4) (hround : toNonVC4Round timeSlot s = .inl s') :
      timeSlot.length + 1 - s'.vStart < timeSlot.length + 1 - s.vStart := by
    rw [toNonVC4Round] at hround
    split at hround
    · rename_i hpos
      split at hround
      · cases hround
        have hle := instrFrom_le timeSlot ampersand s.vStart
        have hge := le_instrFrom hpos
        show timeSlot.length + 1 - (_ + 1) < _
        omega
      · cases hround
    · cases hround
  exact rounds_ends _ hnext (Nat.lt_succ_self _)

/-! ### From numbers by STS1 -/

/-- A round of the loop that cuts the text into numbers. -/
def cutRound (s : Str × List Number) : Str × List Number ⊕ Option (List Number) :=
  let (timeslotsString, timeslotList) := s
  let idx1 := instr timeslotsString ampersand
  if 0 < idx1 then
    match toNumber (substrOf timeslotsString 0 (idx1 - 1)) with
    | some slot => .inl (substr timeslotsString (idx1 + 1), timeslotList ++ [slot])
    | none => .inr none
  else .inr ((toNumber timeslotsString).map fun slot => timeslotList ++ [slot])

/-- The loop that cuts the text into numbers. -/
def cutNumbers (timeslotsString : Str) : Option (List Number) :=
  (rounds cutRound (timeslotsString.length + 1) (timeslotsString, [])).join

/-- The body of the loop over the numbers. -/
def appendVC4 (convertedSts1Map : Str) (timeslot : Number) : Option Str := do
  let convertedTimeSlot ← varchar2 800 (numberText (timeslot.map fun q => q + 2))
  let slot ← toNumber convertedTimeSlot
  if slot.any fun q => modulo q 3 = 0 then
    let convertedTimeSlot ← varchar2 800 (numberText (slot.map fun q => q / 3))
    let slot ← toNumber convertedTimeSlot
    if slot.any fun q => q ≠ 0 then
      varchar2 800
        (if convertedSts1Map = lit "0" then convertedTimeSlot
        else convertedSts1Map ++ ampersand :: convertedTimeSlot)
    else some convertedSts1Map
  else some convertedSts1Map

/-- `convertTimeslotNonVC4ToVC4`; `none` is an exception. -/
def convertTimeslotNonVC4ToVC4 (timeSlot : Str) : Option Str := do
  let timeslotsString ← varchar2 800 timeSlot
  let timeslotList ← cutNumbers timeslotsString
  timeslotList.foldlM appendVC4 (lit "0")

/-- **The loop ends.** -/
theorem cutNumbers_ends (timeslotsString : Str) (timeslotList : List Number) :
    ∃ result, rounds cutRound (timeslotsString.length + 1) (timeslotsString, timeslotList) =
      some result := by
  have hnext (s s' : Str × List Number) (hround : cutRound s = .inl s') :
      s'.1.length < s.1.length := by
    rw [cutRound] at hround
    split at hround
    · rename_i hpos
      split at hround
      · cases hround
        have hmem := List.length_pos_of_mem (instr_pos_iff.mp hpos)
        rw [substr, List.length_drop]
        show s.1.length - _ < s.1.length
        omega
      · cases hround
    · cases hround
  exact rounds_ends _ hnext (Nat.lt_succ_self _)

/-! ### Lists of slots -/

/-- The number by STS1 of a VC4. -/
def nonVC4Slot (slot : Nat) : Nat := 3 * slot - 2

/-- The VC4 that begins at an STS1. -/
def vc4Slot (slot : Nat) : Option Nat := if slot % 3 = 1 then some ((slot + 2) / 3) else none

section

variable {slot : Nat} {slots rest : List Nat}

theorem vc4Slot_nonVC4Slot (hpos : 0 < slot) : vc4Slot (nonVC4Slot slot) = some slot := by
  rw [vc4Slot, nonVC4Slot, if_pos (by omega)]
  congr 1
  omega

theorem nonVC4Slot_vc4Slot (slot : Nat) :
    (vc4Slot slot).map nonVC4Slot = if slot % 3 = 1 then some slot else none := by
  rw [vc4Slot]
  split
  · rw [Option.map_some, nonVC4Slot]
    congr 1
    omega
  · rfl

/-- Each VC4 is that of its number by STS1. -/
theorem filterMap_vc4Slot_map (hpos : ∀ slot ∈ slots, 0 < slot) :
    (slots.map nonVC4Slot).filterMap vc4Slot = slots := by
  rw [List.filterMap_map]
  refine (List.filterMap_congr fun slot hslot => ?_).trans List.filterMap_some
  exact vc4Slot_nonVC4Slot (hpos slot hslot)

/-- Only the numbers that begin a VC4 are those of VC4s. -/
theorem map_nonVC4Slot_filterMap (slots : List Nat) :
    (slots.filterMap vc4Slot).map nonVC4Slot = slots.filter fun slot => slot % 3 = 1 := by
  rw [List.map_filterMap, ← List.filterMap_eq_filter]
  refine List.filterMap_congr fun slot _ => ?_
  rw [nonVC4Slot_vc4Slot, Option.guard_apply]
  simp

theorem timesThreeMinusTwo_decimal (hpos : 0 < slot) :
    timesThreeMinusTwo (decimal slot) = some (decimal (nonVC4Slot slot)) := by
  have hvalue : (slot : Rat) * 3 - 2 = (nonVC4Slot slot : Nat) := by
    rw [nonVC4Slot, Nat.cast_sub (by omega)]
    push_cast
    ring
  rw [timesThreeMinusTwo, toNumber_decimal, Option.map_some, Option.map_some, hvalue,
    numberText_natCast]

theorem append_decimal {s : ToNonVC4} (hfirst : s.vFirst = slots.isEmpty)
    (hmap : s.convertedSts1Map = slotText slots) (hpos : 0 < slot) (hslot : slot ≤ 9999)
    (hlen : (slotText (slots ++ [nonVC4Slot slot])).length ≤ 800) :
    s.append (decimal slot) = some (slotText (slots ++ [nonVC4Slot slot])) := by
  have hfour : varchar2 4 (decimal slot) = some (decimal slot) :=
    if_pos ((length_decimal_le hslot).trans (by decide))
  have hnew : (if s.vFirst then decimal (nonVC4Slot slot)
      else s.convertedSts1Map ++ ampersand :: decimal (nonVC4Slot slot)) =
      slotText (slots ++ [nonVC4Slot slot]) := by
    rw [hfirst, hmap]
    cases slots with
    | nil => exact (slotText_singleton _).symm
    | cons slot' slots =>
        rw [slotText_append (List.cons_ne_nil _ _) (List.cons_ne_nil _ _), slotText_singleton]
        rfl
  rw [ToNonVC4.append, hfour, Option.bind_eq_bind, Option.bind_some,
    timesThreeMinusTwo_decimal hpos, Option.bind_some, hnew, varchar2, if_pos hlen]

/-- **The loop from any place on**, by induction on the numbers that are left there. -/
theorem rounds_toNonVC4 {timeSlot : Str} {s : ToNonVC4} {n : Nat} (hne : rest ≠ [])
    (hstart : 0 < s.vStart) (hrest : substr timeSlot s.vStart = slotText rest)
    (hfirst : s.vFirst = slots.isEmpty) (hmap : s.convertedSts1Map = slotText slots)
    (hslots : ∀ slot ∈ rest, 0 < slot ∧ slot ≤ 9999)
    (hlen : (slotText (slots ++ rest.map nonVC4Slot)).length ≤ 800) (hn : rest.length ≤ n) :
    rounds (toNonVC4Round timeSlot) n s =
      some (some (slotText (slots ++ rest.map nonVC4Slot))) := by
  induction rest generalizing slots s n with
  | nil => exact absurd rfl hne
  | cons slot rest ih =>
      obtain ⟨n, rfl⟩ := Nat.exists_eq_add_of_le' ((Nat.succ_pos _).trans_le hn)
      obtain ⟨⟨hpos, hslot⟩, hslots⟩ := List.forall_mem_cons.mp hslots
      rw [List.map_cons, List.append_cons] at hlen ⊢
      have happend := append_decimal hfirst hmap hpos hslot
        ((length_slotText_append_le _ _).trans hlen)
      by_cases hlast : rest = []
      · subst hlast
        rw [slotText_singleton] at hrest
        have hend : instrFrom timeSlot ampersand s.vStart = 0 := by
          rw [instrFrom, hrest, instr_of_not_mem (ampersand_not_mem_decimal slot)]
          rfl
        rw [rounds, toNonVC4Round, hend, if_neg (Nat.lt_irrefl 0), hrest, happend, List.map_nil,
          List.append_nil]
      · rw [slotText_cons slot hlast] at hrest
        obtain ⟨hend, htoken, hbehind⟩ :=
          instrFrom_append_cons hstart hrest (ampersand_not_mem_decimal slot)
        rw [rounds, toNonVC4Round, hend, if_pos (by omega), Nat.add_sub_cancel_left, htoken,
          happend]
        refine ih hlast (Nat.succ_pos _) hbehind ?_ rfl hslots hlen (Nat.le_of_succ_le_succ hn)
        exact (List.isEmpty_eq_false_iff.mpr (List.append_ne_nil_of_right_ne_nil _ (by simp))).symm

/-- **The numbers of VC4s.** -/
theorem convertTimeslotVC4ToNonVC4_slotText (hne : slots ≠ [])
    (hslots : ∀ slot ∈ slots, 0 < slot ∧ slot ≤ 9999)
    (hlen : (slotText (slots.map nonVC4Slot)).length ≤ 800) :
    convertTimeslotVC4ToNonVC4 (slotText slots) = some (slotText (slots.map nonVC4Slot)) := by
  rw [convertTimeslotVC4ToNonVC4]
  split
  · rename_i hone
    -- there is only one number where there is no `&`
    obtain ⟨slot, rest, rfl⟩ := List.exists_cons_of_ne_nil hne
    by_cases hlast : rest = []
    · subst hlast
      rw [slotText_singleton, timesThreeMinusTwo_decimal (hslots slot List.mem_cons_self).1]
      exact congrArg some (slotText_singleton _).symm
    · rw [slotText_cons slot hlast, instr_append_cons (ampersand_not_mem_decimal slot)] at hone
      exact absurd hone.2 (Nat.succ_ne_zero _)
  · have hrounds := @rounds_toNonVC4 [] slots (slotText slots) {} _ hne Nat.one_pos rfl rfl rfl
      hslots hlen (length_le_slotText slots)
    rw [hrounds]
    rfl

/-- **The loop cuts a list into its numbers.** -/
theorem rounds_cutRound {numbers : List Number} {n : Nat} (hne : slots ≠ [])
    (hn : slots.length ≤ n) :
    rounds cutRound n (slotText slots, numbers) =
      some (some (numbers ++ slots.map fun slot : Nat => some (slot : Rat))) := by
  induction slots generalizing numbers n with
  | nil => exact absurd rfl hne
  | cons slot slots ih =>
      obtain ⟨n, rfl⟩ := Nat.exists_eq_add_of_le' ((Nat.succ_pos _).trans_le hn)
      have hslot := ampersand_not_mem_decimal slot
      by_cases hlast : slots = []
      · subst hlast
        rw [slotText_singleton, rounds, cutRound, instr_of_not_mem hslot, if_neg (Nat.lt_irrefl 0),
          toNumber_decimal]
        rfl
      · have htoken : substrOf (decimal slot ++ ampersand :: slotText slots) 0
            (instr (decimal slot ++ ampersand :: slotText slots) ampersand - 1) = decimal slot :=
          substrOf_append_cons hslot
        rw [slotText_cons slot hlast, rounds, cutRound, htoken, substr_append_cons hslot,
          instr_append_cons hslot, if_pos (Nat.succ_pos _), toNumber_decimal, List.map_cons,
          List.append_cons]
        exact ih hlast (Nat.le_of_succ_le_succ hn)

theorem cutNumbers_slotText (hne : slots ≠ []) :
    cutNumbers (slotText slots) = some (slots.map fun slot : Nat => some (slot : Rat)) := by
  rw [cutNumbers, rounds_cutRound hne (length_le_slotText slots)]
  rfl

/-- `convertedSts1Map` for the VC4s so far. -/
def vc4Text (slots : List Nat) : Str := if slots = [] then lit "0" else slotText slots

/-- No list of slots has the text of the empty one. -/
theorem vc4Text_eq_zero_iff (hzero : 0 ∉ slots) : vc4Text slots = lit "0" ↔ slots = [] := by
  rw [vc4Text]
  split
  · rename_i hnil
    exact iff_of_true rfl hnil
  · rename_i hne
    refine iff_of_false (fun heq => hzero ?_) hne
    have hwords := words_slotText slots
    rw [heq] at hwords
    have hmem : decimal 0 ∈ slots.map fun slot : Nat => decimal slot :=
      hwords ▸ List.mem_singleton_self _
    obtain ⟨slot, hslot, hdecimal⟩ := List.mem_map.mp hmem
    exact decimal_natCast_inj.mp hdecimal ▸ hslot

theorem vc4Slot_pos {slot' : Nat} (h : slot' ∈ vc4Slot slot) : 0 < slot' ∧ slot' ≤ slot := by
  rw [vc4Slot] at h
  split at h
  · cases h
    omega
  · cases h

theorem vc4Text_of_ne_nil (hne : slots ≠ []) : vc4Text slots = slotText slots := if_neg hne

theorem vc4Text_append_singleton (hzero : 0 ∉ slots) :
    (if vc4Text slots = lit "0" then decimal slot else vc4Text slots ++ ampersand :: decimal slot) =
      slotText (slots ++ [slot]) := by
  split
  · rename_i hmap
    rw [(vc4Text_eq_zero_iff hzero).mp hmap]
    exact (slotText_singleton slot).symm
  · rename_i hmap
    have hne : slots ≠ [] := fun hnil => hmap ((vc4Text_eq_zero_iff hzero).mpr hnil)
    rw [vc4Text_of_ne_nil hne, slotText_append hne (List.cons_ne_nil _ _), slotText_singleton]

/-- **A number that begins a VC4 leaves the VC4**, and another one nothing. -/
theorem appendVC4_natCast (hzero : 0 ∉ slots) (hslot : slot ≤ 99997)
    (hlen : (slotText (slots ++ (vc4Slot slot).toList)).length ≤ 800) :
    appendVC4 (vc4Text slots) (some (slot : Rat)) =
      some (vc4Text (slots ++ (vc4Slot slot).toList)) := by
  have hfits {n : Nat} (hn : n ≤ 99999) : varchar2 800 (decimal n) = some (decimal n) :=
    if_pos ((length_decimal_le hn).trans (by decide))
  have hplus : (slot : Rat) + 2 = (slot + 2 : Nat) := by
    push_cast
    rfl
  have hsum : varchar2 800 (numberText ((some (slot : Rat)).map fun q => q + 2)) =
      some (decimal (slot + 2 : Nat)) := by
    rw [Option.map_some, hplus, numberText_natCast, hfits (by omega)]
  have hmod : (some ((slot + 2 : Nat) : Rat)).any (fun q => modulo q 3 = 0) = true ↔
      slot % 3 = 1 := by
    rw [Option.any_some, decide_eq_true_iff, modulo_natCast, Nat.cast_eq_zero]
    omega
  rw [appendVC4, hsum, Option.bind_eq_bind, Option.bind_some, toNumber_decimal, Option.bind_eq_bind,
    Option.bind_some]
  by_cases hfirst : slot % 3 = 1
  · obtain ⟨vc4, hvc4⟩ : ∃ vc4, slot + 2 = 3 * vc4 := ⟨(slot + 2) / 3, by omega⟩
    have hquot : varchar2 800 (numberText ((some ((slot + 2 : Nat) : Rat)).map fun q => q / 3)) =
        some (decimal vc4) := by
      rw [Option.map_some, hvc4, Nat.cast_mul, Nat.cast_ofNat, mul_div_cancel_left₀ _ (by norm_num),
        numberText_natCast, hfits (by omega)]
    have hne : (some (vc4 : Rat)).any (fun q => q ≠ 0) = true := by
      rw [Option.any_some, decide_eq_true_iff, Nat.cast_ne_zero]
      omega
    have hslot : vc4Slot slot = some vc4 := by
      rw [vc4Slot, if_pos hfirst, hvc4, Nat.mul_div_cancel_left _ (by decide)]
    rw [hslot, Option.toList_some] at hlen ⊢
    rw [if_pos (hmod.mpr hfirst), hquot, Option.bind_some, toNumber_decimal, Option.bind_some,
      if_pos hne, vc4Text_append_singleton hzero, varchar2, if_pos hlen,
      vc4Text_of_ne_nil (List.append_ne_nil_of_right_ne_nil _ (List.cons_ne_nil _ _))]
  · rw [if_neg (mt hmod.mp hfirst), vc4Slot, if_neg hfirst, Option.toList_none, List.append_nil]

theorem foldlM_appendVC4 (hzero : 0 ∉ slots) (hrest : ∀ slot ∈ rest, slot ≤ 99997)
    (hlen : (slotText (slots ++ rest.filterMap vc4Slot)).length ≤ 800) :
    (rest.map fun slot : Nat => some (slot : Rat)).foldlM appendVC4 (vc4Text slots) =
      some (vc4Text (slots ++ rest.filterMap vc4Slot)) := by
  induction rest generalizing slots with
  | nil =>
      rw [List.filterMap_nil, List.append_nil]
      rfl
  | cons slot rest ih =>
      obtain ⟨hslot, hrest⟩ := List.forall_mem_cons.mp hrest
      have hcons : slots ++ (slot :: rest).filterMap vc4Slot =
          slots ++ (vc4Slot slot).toList ++ rest.filterMap vc4Slot := by
        rw [List.append_assoc]
        cases hvc4 : vc4Slot slot with
        | none => rw [List.filterMap_cons_none hvc4, Option.toList_none, List.nil_append]
        | some vc4 => rw [List.filterMap_cons_some hvc4, Option.toList_some, List.singleton_append]
      have hzero' : 0 ∉ slots ++ (vc4Slot slot).toList := by
        rw [List.mem_append, not_or]
        refine ⟨hzero, fun hmem => ?_⟩
        exact absurd (vc4Slot_pos (Option.mem_toList.mp hmem)).1 (Nat.lt_irrefl 0)
      rw [hcons] at hlen ⊢
      rw [List.map_cons, List.foldlM_cons,
        appendVC4_natCast hzero hslot ((length_slotText_append_le _ _).trans hlen)]
      exact ih hzero' hrest hlen

/-- **The numbers of STS1s.** -/
theorem convertTimeslotNonVC4ToVC4_slotText (hne : slots ≠ [])
    (hslots : ∀ slot ∈ slots, slot ≤ 99997) (hlen : (slotText slots).length ≤ 800) :
    convertTimeslotNonVC4ToVC4 (slotText slots) = some (vc4Text (slots.filterMap vc4Slot)) := by
  have hle := length_slotText_filterMap_le (fun slot vc4 h => (vc4Slot_pos h).2) slots
  rw [convertTimeslotNonVC4ToVC4, varchar2, if_pos hlen, Option.bind_eq_bind, Option.bind_some,
    cutNumbers_slotText hne, Option.bind_eq_bind, Option.bind_some]
  exact @foldlM_appendVC4 [] slots List.not_mem_nil hslots (hle.trans hlen)

end

/-- **The round trips.** -/
theorem timeslot_roundTrip {slots : List Nat} (hne : slots ≠ [])
    (hslots : ∀ slot ∈ slots, 0 < slot ∧ slot ≤ 9999) :
    ((slotText (slots.map nonVC4Slot)).length ≤ 800 →
      (convertTimeslotVC4ToNonVC4 (slotText slots)).bind convertTimeslotNonVC4ToVC4 =
        some (slotText slots)) ∧
    ((slotText slots).length ≤ 800 → (∃ slot ∈ slots, slot % 3 = 1) →
      (convertTimeslotNonVC4ToVC4 (slotText slots)).bind convertTimeslotVC4ToNonVC4 =
        some (slotText (slots.filter fun slot => slot % 3 = 1))) := by
  constructor
  · intro hlen
    have hvc4 : (slots.map nonVC4Slot).filterMap vc4Slot = slots :=
      filterMap_vc4Slot_map fun slot hslot => (hslots slot hslot).1
    have hsts : ∀ slot ∈ slots.map nonVC4Slot, slot ≤ 99997 := by
      rw [List.forall_mem_map]
      intro slot hslot
      have hle := (hslots slot hslot).2
      rw [nonVC4Slot]
      omega
    have hne' : slots.map nonVC4Slot ≠ [] := mt List.map_eq_nil_iff.mp hne
    rw [convertTimeslotVC4ToNonVC4_slotText hne hslots hlen, Option.bind_some,
      convertTimeslotNonVC4ToVC4_slotText hne' hsts hlen, hvc4, vc4Text_of_ne_nil hne]
  · rintro hlen ⟨first, hfirst, hmod⟩
    set vc4s := slots.filterMap vc4Slot
    have hmem : ∀ vc4 ∈ vc4s, 0 < vc4 ∧ vc4 ≤ 9999 := by
      intro vc4 hvc4
      obtain ⟨slot, hslot, hvc4⟩ := List.mem_filterMap.mp hvc4
      exact ⟨(vc4Slot_pos hvc4).1, (vc4Slot_pos hvc4).2.trans (hslots slot hslot).2⟩
    have hne' : vc4s ≠ [] := by
      have hvc4 : vc4Slot first = some ((first + 2) / 3) := if_pos hmod
      exact List.ne_nil_of_mem (List.mem_filterMap.mpr ⟨first, hfirst, hvc4⟩)
    have hkept : vc4s.map nonVC4Slot = slots.filter fun slot => slot % 3 = 1 :=
      map_nonVC4Slot_filterMap slots
    have hle : (slotText (vc4s.map nonVC4Slot)).length ≤ (slotText slots).length := by
      rw [hkept, ← List.filterMap_eq_filter]
      refine length_slotText_filterMap_le (fun slot slot' h => ?_) slots
      rw [(Option.guard_eq_some_iff.mp h).1]
    have hsts : ∀ slot ∈ slots, slot ≤ 99997 := fun slot h => (hslots slot h).2.trans (by decide)
    rw [convertTimeslotNonVC4ToVC4_slotText hne hsts hlen,
      Option.bind_some, vc4Text_of_ne_nil hne', convertTimeslotVC4ToNonVC4_slotText hne' hmem
      (hle.trans hlen), hkept]

theorem timeslot_roundTrip_three :
    ((slotText ([1, 2, 4].map nonVC4Slot)).length ≤ 800 →
      (convertTimeslotVC4ToNonVC4 (slotText [1, 2, 4])).bind convertTimeslotNonVC4ToVC4 =
        some (slotText [1, 2, 4])) ∧
    ((slotText [1, 2, 4]).length ≤ 800 → (∃ slot ∈ [1, 2, 4], slot % 3 = 1) →
      (convertTimeslotNonVC4ToVC4 (slotText [1, 2, 4])).bind convertTimeslotVC4ToNonVC4 =
        some (slotText ([1, 2, 4].filter fun slot => slot % 3 = 1))) :=
  @timeslot_roundTrip [1, 2, 4] (by decide) (by decide)

end Realwork.Circuit
