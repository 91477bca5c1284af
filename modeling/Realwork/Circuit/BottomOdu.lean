import Mathlib
import Realwork.Circuit.OduChain
import Realwork.Lib.Best

/-!
# Circuit — the bottom ODU

`getBottomMappingOduFromHigher` of `circuit_discovery.plsql` finds the ODU that carries the
tributary slots of a lower one: an ODU with the same slots, or the tightest of those that have
these slots among theirs, which it takes to be the one with the shortest text.

* `isTribslotSubsetOf_iff`: the tables of the tokens are compared as the sets of slots.
* `length_lt_of_ssubset`: fewer slots have a shorter text.
* `bottomOdu_tightest`: the ODU that is returned is a tightest one.
-/

namespace Realwork.Circuit

open Lib

/-! ### The functions -/

/-- `REGEXP_SUBSTR(txt, '[^&]+', 1, level)` -/
def regexpSubstr (txt : Str) (level : Nat) : Option Str :=
  (words (· == ampersand) txt)[level - 1]?

/-- How many rows `CONNECT BY level <= length(regexp_replace(txt, '[^&]+')) + 1` gives.  A text
without `&` leaves NULL, which has no length: only the root is a row then. -/
def levels (txt : Str) : Nat :=
  let ampersands := txt.filter (· == ampersand)
  if ampersands = [] then 1 else ampersands.length + 1

/-- `tribslotToTable`; `none` is NULL. -/
def tribslotToTable (str : Str) : List (Option Str) :=
  ((List.range (levels str)).map fun i => regexpSubstr str (i + 1)).dedup

def isTribslotSubsetOf (highTribSlot : Str) (lowTribSlotTab : List (Option Str)) : Bool :=
  decide (lowTribSlotTab.Subperm (tribslotToTable highTribSlot))

/-- The loop that sets `bottom_tribslot`. -/
def bottomTribslot : List Str → Str
  | [] => []
  | tribslot :: oduMappingTribslotList =>
      if tribslot ≠ [] ∧ tribslot ≠ lit "0" then tribslot
      else bottomTribslot oduMappingTribslotList

/-- The variables of the two searches. -/
structure Bottom where
  bottomOdu : Int := 0
  bottomOduAid : Str := []
  tempTribslot : Str := []

/-- The search for an ODU with the same slots. -/
def findSame (bottomTribslot : Str) : List Odu → Bottom → Bottom
  | [], s => s
  | odu :: oduList, s =>
      let s :=
        if bottomTribslot ≠ [] ∧ odu.facTribslot = bottomTribslot then
          { s with bottomOdu := odu.facId, bottomOduAid := odu.facAid }
        else s
      if s.bottomOdu ≠ 0 then s else findSame bottomTribslot oduList s

/-- The body of the loop of the other search. -/
def tighten (bottomTribslotTab : List (Option Str)) (s : Bottom) (odu : Odu) : Bottom :=
  if odu.facTribslot ≠ [] then
    if s.tempTribslot = [] ∨
        (s.tempTribslot ≠ [] ∧ odu.facTribslot.length < s.tempTribslot.length) then
      if isTribslotSubsetOf odu.facTribslot bottomTribslotTab then
        { bottomOdu := odu.facId, bottomOduAid := odu.facAid, tempTribslot := odu.facTribslot }
      else s
    else s
  else s

def findBottom (bottomTribslot : Str) (oduList : List Odu) : Bottom :=
  let s := findSame bottomTribslot oduList {}
  if s.bottomOdu = 0 then oduList.foldl (tighten (tribslotToTable bottomTribslot)) s else s

/-- How the function ends. -/
inductive BottomEnd where
  | returned (bottomOdu : Int) (middleOduList : List Int)
  | raised

def ClimbEnd.result (bottomOdu : Int) : ClimbEnd → BottomEnd
  | ended c => .returned bottomOdu c.middleOduList
  | raised _ => .raised

/-- `getBottomMappingOduFromHigher`, from the rows of its cursor on; `none` if `n` rounds are not
enough for its climb. -/
def getBottomMappingOduFromHigher (n : Nat) (oduList : List Odu) (higherOduId : Int)
    (oduMappingTribslotList : List Str) : Option BottomEnd :=
  if 1 < oduMappingTribslotList.length ∧ 0 < oduList.length then
    let s := findBottom (bottomTribslot oduMappingTribslotList) oduList
    if s.bottomOdu ≠ 0 then
      (rounds (climbRound oduList higherOduId) n { curOduAid := s.bottomOduAid }).map
        (ClimbEnd.result s.bottomOdu)
    else some (.returned 0 [])
  else some (.returned 0 [])

/-! ### Slots -/

/-- The numbers of the slots in a text. -/
def slotsOf (tribslot : Str) : Set Nat := {slot | decimal slot ∈ words (· == ampersand) tribslot}

/-- The text lists different slots. -/
def ListsSlots (tribslot : Str) : Prop :=
  ∃ slots : List Nat, slots.Nodup ∧ tribslot = slotText slots

section

variable {slots slots' : List Nat}

theorem slotsOf_slotText (slots : List Nat) : slotsOf (slotText slots) = {slot | slot ∈ slots} := by
  ext slot
  rw [slotsOf, Set.mem_ofPred_eq, words_slotText, List.mem_map, Set.mem_ofPred_eq]
  constructor
  · rintro ⟨slot', hmem, heq⟩
    exact decimal_natCast_inj.mp heq ▸ hmem
  · exact fun hmem => ⟨slot, hmem, rfl⟩

theorem levels_slotText (hne : slots ≠ []) : levels (slotText slots) = slots.length := by
  have hcount : ((slotText slots).filter (· == ampersand)).length = slots.length - 1 := by
    rw [← List.countP_eq_length_filter]
    exact count_slotText slots
  have hpos := List.length_pos_iff.mpr hne
  rw [levels]
  split
  · rename_i hnil
    rw [hnil, List.length_nil] at hcount
    omega
  · rw [hcount]
    omega

theorem tribslotToTable_slotText (hne : slots ≠ []) (hnodup : slots.Nodup) :
    tribslotToTable (slotText slots) = slots.map fun slot : Nat => some (decimal slot) := by
  have hrows : ((List.range (levels (slotText slots))).map fun i =>
      regexpSubstr (slotText slots) (i + 1)) = slots.map fun slot : Nat => some (decimal slot) := by
    rw [levels_slotText hne]
    refine List.ext_getElem (by simp) fun i hi hi' => ?_
    simp only [List.length_map] at hi'
    simp [regexpSubstr, words_slotText, hi']
  rw [tribslotToTable, hrows]
  refine List.Nodup.dedup (hnodup.map fun slot slot' h => ?_)
  exact decimal_natCast_inj.mp (Option.some.inj h)

/-- **The tables are compared as the sets of slots.** -/
theorem isTribslotSubsetOf_iff (hne : slots ≠ []) (hnodup : slots.Nodup) (hne' : slots' ≠ [])
    (hnodup' : slots'.Nodup) :
    isTribslotSubsetOf (slotText slots') (tribslotToTable (slotText slots)) = true ↔
      slotsOf (slotText slots) ⊆ slotsOf (slotText slots') := by
  have hinj : Function.Injective fun slot : Nat => some (decimal slot) :=
    fun slot slot' h => decimal_natCast_inj.mp (Option.some.inj h)
  rw [isTribslotSubsetOf, decide_eq_true_iff, tribslotToTable_slotText hne hnodup,
    tribslotToTable_slotText hne' hnodup', slotsOf_slotText, slotsOf_slotText]
  constructor
  · intro h slot hslot
    exact (List.mem_map_of_injective hinj).mp (h.subset (List.mem_map_of_mem hslot))
  · intro h
    exact (hnodup.map hinj).subperm (List.map_subset _ h)

/-- **Fewer slots have a shorter text.** -/
theorem length_lt_of_ssubset (hne : slots ≠ []) (hnodup : slots.Nodup)
    (h : slotsOf (slotText slots) ⊂ slotsOf (slotText slots')) :
    (slotText slots).length < (slotText slots').length := by
  rw [slotsOf_slotText, slotsOf_slotText] at h
  obtain ⟨hsub, hnot⟩ := h
  obtain ⟨kept, hperm, hkept⟩ := hnodup.subperm hsub
  obtain ⟨more, hmore⟩ := hkept.exists_perm_append
  have hperm' : slots'.Perm (slots ++ more) := hmore.trans (hperm.append_right more)
  have hne' : slots' ≠ [] := fun hnil => hne (List.subset_nil.mp (hnil ▸ hsub))
  have hmore : more ≠ [] := by
    rintro rfl
    rw [List.append_nil] at hperm'
    exact hnot hperm'.subset
  have hsum : 0 < (more.map fun slot : Nat => (decimal slot).length + 1).sum := by
    obtain ⟨slot, more, rfl⟩ := List.exists_cons_of_ne_nil hmore
    rw [List.map_cons, List.sum_cons]
    omega
  have hlen := length_slotText hne
  have hlen' := length_slotText hne'
  rw [(hperm'.map _).sum_nat, List.map_append, List.sum_append] at hlen'
  omega

end

/-! ### The searches -/

section

variable {lower : Str} {oduList : List Odu}

/-- Of ODUs that have ids the first one with the same slots is found. -/
theorem findSame_eq (hlower : lower ≠ []) (hids : ∀ odu ∈ oduList, odu.facId ≠ 0) (s : Bottom)
    (hs : s.bottomOdu = 0) :
    findSame lower oduList s =
      match oduList.find? fun odu => odu.facTribslot = lower with
      | some odu => { s with bottomOdu := odu.facId, bottomOduAid := odu.facAid }
      | none => s := by
  induction oduList with
  | nil => rfl
  | cons odu oduList ih =>
      rw [List.forall_mem_cons] at hids
      by_cases hsame : odu.facTribslot = lower
      · simp [findSame, hlower, hsame, hids.1]
      · simpa [findSame, hsame, hs] using ih hids.2

/-- An ODU that carries the slots. -/
def carries (lower : Str) (odu : Odu) : Bool :=
  !odu.facTribslot.isEmpty && isTribslotSubsetOf odu.facTribslot (tribslotToTable lower)

/-- The variables for the best ODU so far. -/
def Bottom.ofBest : Option Odu → Bottom
  | none => {}
  | some odu =>
      { bottomOdu := odu.facId, bottomOduAid := odu.facAid, tempTribslot := odu.facTribslot }

/-- The better of the ODUs that carry the slots: the one with the shorter text. -/
def shorter (lower : Str) : Option Odu → Odu → Option Odu :=
  better (carries lower) fun odu => odu.facTribslot.length

theorem tighten_ofBest {best : Option Odu} (h : ∀ b ∈ best, carries lower b = true) (odu : Odu) :
    tighten (tribslotToTable lower) (.ofBest best) odu = .ofBest (shorter lower best odu) := by
  by_cases hnil : odu.facTribslot = []
  · simp [tighten, shorter, better, carries, hnil]
  · cases best with
    | none =>
        cases hsub : isTribslotSubsetOf odu.facTribslot (tribslotToTable lower) <;>
          simp [tighten, shorter, better, carries, Bottom.ofBest, hnil, hsub]
    | some b =>
        have hb : b.facTribslot ≠ [] := by
          have hcarries := h b rfl
          rw [carries, Bool.and_eq_true, Bool.not_eq_true', List.isEmpty_eq_false_iff] at hcarries
          exact hcarries.1
        cases hsub : isTribslotSubsetOf odu.facTribslot (tribslotToTable lower) <;>
          by_cases hlt : odu.facTribslot.length < b.facTribslot.length <;>
          simp [tighten, shorter, better, carries, Bottom.ofBest, hnil, hsub, hb, hlt]

/-- **The search is one for the shortest text.** -/
theorem foldl_tighten (lower : Str) (oduList : List Odu) :
    oduList.foldl (tighten (tribslotToTable lower)) {} =
      .ofBest (oduList.foldl (shorter lower) none) := by
  induction oduList using List.reverseRecOn with
  | nil => rfl
  | append_singleton oduList odu ih =>
      rw [List.foldl_append, List.foldl_append, ih]
      exact tighten_ofBest (fun b hb => ((isBest_foldl oduList).mem b hb).2) odu

/-- What the ODU that is found has to be. -/
structure Tightest (lower : Str) (oduList : List Odu) (bottomOdu : Int) : Prop where
  /-- If there are ODUs with the same text, the first one of them is found. -/
  same : ∀ odu, (oduList.find? fun odu => odu.facTribslot = lower) = some odu →
    bottomOdu = odu.facId
  /-- Otherwise one that has the slots among its own, if there is one, and none that has them
  has fewer. -/
  tight : (∀ odu ∈ oduList, odu.facTribslot ≠ lower) →
    (bottomOdu = 0 ∧ ∀ odu ∈ oduList, ¬ slotsOf lower ⊆ slotsOf odu.facTribslot) ∨
    ∃ odu ∈ oduList, bottomOdu = odu.facId ∧ slotsOf lower ⊆ slotsOf odu.facTribslot ∧
      ∀ other ∈ oduList, slotsOf lower ⊆ slotsOf other.facTribslot →
        ¬ slotsOf other.facTribslot ⊂ slotsOf odu.facTribslot

theorem carries_iff (hlower : lower ≠ []) (hlists : ListsSlots lower) {odu : Odu}
    (hodu : ListsSlots odu.facTribslot) :
    carries lower odu = true ↔ slotsOf lower ⊆ slotsOf odu.facTribslot := by
  obtain ⟨slots, hnodup, rfl⟩ := hlists
  obtain ⟨slots', hnodup', heq⟩ := hodu
  have hne : slots ≠ [] := fun hnil => hlower (by rw [hnil]; rfl)
  rw [carries, heq, Bool.and_eq_true, Bool.not_eq_true', List.isEmpty_eq_false_iff]
  by_cases hne' : slots' = []
  · refine iff_of_false (fun h => h.1 (by rw [hne']; rfl)) fun h => hne ?_
    rw [hne', slotsOf_slotText, slotsOf_slotText] at h
    exact List.subset_nil.mp h
  · rw [isTribslotSubsetOf_iff hne hnodup hne' hnodup', and_iff_right (slotText_ne_nil hne')]

/-- An ODU that carries the slots, and is no shorter than another one that does, has no slots
besides those of that one. -/
theorem not_ssubset_of_le {odu other : Odu}
    (hodu : ListsSlots odu.facTribslot) (hother : ListsSlots other.facTribslot)
    (hcarries : carries lower other = true)
    (hle : odu.facTribslot.length ≤ other.facTribslot.length) :
    ¬ slotsOf other.facTribslot ⊂ slotsOf odu.facTribslot := by
  intro hssubset
  have hne : other.facTribslot ≠ [] := by
    rw [carries, Bool.and_eq_true, Bool.not_eq_true', List.isEmpty_eq_false_iff] at hcarries
    exact hcarries.1
  obtain ⟨slots, hnodup, heq⟩ := hother
  obtain ⟨slots', -, heq'⟩ := hodu
  rw [heq, heq'] at hssubset hle
  have hslots : slots ≠ [] := fun hnil => hne (by rw [heq, hnil]; rfl)
  exact Nat.not_lt.mpr hle (length_lt_of_ssubset hslots hnodup hssubset)

/-- What the two searches leave. -/
theorem findBottom_eq (hlower : lower ≠ []) (hids : ∀ odu ∈ oduList, odu.facId ≠ 0) :
    findBottom lower oduList =
      match oduList.find? fun odu => odu.facTribslot = lower with
      | some odu => { bottomOdu := odu.facId, bottomOduAid := odu.facAid }
      | none => .ofBest (oduList.foldl (shorter lower) none) := by
  rw [findBottom, findSame_eq hlower hids {} rfl]
  cases hfind : oduList.find? fun odu => odu.facTribslot = lower with
  | some odu => exact if_neg (hids odu (List.mem_of_find?_eq_some hfind))
  | none => exact foldl_tighten lower oduList

/-- **The ODU that is found is a tightest one.** -/
theorem tightest_findBottom (hlower : lower ≠ []) (hlists : ListsSlots lower)
    (hodus : ∀ odu ∈ oduList, ListsSlots odu.facTribslot) (hids : ∀ odu ∈ oduList, odu.facId ≠ 0) :
    Tightest lower oduList (findBottom lower oduList).bottomOdu := by
  rw [findBottom_eq hlower hids]
  cases hfind : oduList.find? fun odu => odu.facTribslot = lower with
  | some odu =>
      have htext := List.find?_some hfind
      refine ⟨fun odu' hfind' => ?_, fun hnone => ?_⟩
      · cases hfind.symm.trans hfind'
        rfl
      · exact absurd (of_decide_eq_true htext) (hnone odu (List.mem_of_find?_eq_some hfind))
  | none =>
      have hbest : IsBest (carries lower) _ oduList (oduList.foldl (shorter lower) none) :=
        isBest_foldl oduList
      refine ⟨fun odu hfind' => (by cases hfind.symm.trans hfind'), fun _ => ?_⟩
      cases hleft : oduList.foldl (shorter lower) none with
      | none =>
          refine .inl ⟨rfl, fun odu hmem hsub => ?_⟩
          have hcarries := (carries_iff hlower hlists (hodus odu hmem)).mpr hsub
          rw [hbest.empty hleft odu hmem] at hcarries
          cases hcarries
      | some odu =>
          obtain ⟨hmem, hcarries⟩ := hbest.mem odu hleft
          refine .inr ⟨odu, hmem, rfl, ?_, fun other hother hsub => ?_⟩
          · exact (carries_iff hlower hlists (hodus odu hmem)).mp hcarries
          · have hcarries' := (carries_iff hlower hlists (hodus other hother)).mpr hsub
            exact not_ssubset_of_le (hodus odu hmem) (hodus other hother) hcarries'
              (hbest.least odu hleft other hother hcarries')

/-- The climb starts at an ODU of the list. -/
theorem findBottom_mem (hlower : lower ≠ []) (hids : ∀ odu ∈ oduList, odu.facId ≠ 0)
    (hfound : (findBottom lower oduList).bottomOdu ≠ 0) :
    ∃ odu ∈ oduList, odu.facAid = (findBottom lower oduList).bottomOduAid := by
  rw [findBottom_eq hlower hids] at hfound ⊢
  cases hfind : oduList.find? fun odu => odu.facTribslot = lower with
  | some odu => exact ⟨odu, List.mem_of_find?_eq_some hfind, rfl⟩
  | none =>
      rw [hfind] at hfound
      cases hleft : oduList.foldl (shorter lower) none with
      | none =>
          rw [hleft] at hfound
          exact absurd rfl hfound
      | some odu => exact ⟨odu, ((isBest_foldl oduList).mem odu hleft).1, rfl⟩

end

/-- **The function returns what its first loop finds**, unless the climb from there raises an
exception. -/
theorem getBottomMappingOduFromHigher_returns {oduList : List Odu} {higherOduId : Int}
    {oduMappingTribslotList : List Str} (hmany : 1 < oduMappingTribslotList.length)
    (hlower : bottomTribslot oduMappingTribslotList ≠ [])
    (hids : ∀ odu ∈ oduList, odu.facId ≠ 0) :
    ∃ result, (∀ n, 3 ≤ n → getBottomMappingOduFromHigher n oduList higherOduId
        oduMappingTribslotList = some result) ∧
      ((∃ middleOduList, result = .returned
          (findBottom (bottomTribslot oduMappingTribslotList) oduList).bottomOdu middleOduList) ∨
        (result = .raised ∧ ∃ odu ∈ oduList, getOduMuxNum odu.facAid = none)) := by
  set lower := bottomTribslot oduMappingTribslotList
  set s := findBottom lower oduList with hs
  by_cases hempty : oduList = []
  · refine ⟨.returned 0 [], fun n _ => ?_, .inl ⟨[], ?_⟩⟩
    · rw [getBottomMappingOduFromHigher, hempty, if_neg fun h => Nat.lt_irrefl 0 h.2]
    · rw [hs, hempty]
      rfl
  have hlists : 1 < oduMappingTribslotList.length ∧ 0 < oduList.length :=
    ⟨hmany, List.length_pos_iff.mpr hempty⟩
  by_cases hfound : s.bottomOdu = 0
  · refine ⟨.returned 0 [], fun n _ => ?_, .inl ⟨[], by rw [hfound]⟩⟩
    rw [getBottomMappingOduFromHigher, if_pos hlists]
    exact if_neg fun h => h hfound
  · obtain ⟨left, hleft, -, hraised⟩ := rounds_climb oduList higherOduId s.bottomOduAid
    obtain ⟨odu, hodu, haid⟩ := findBottom_mem hlower hids hfound
    refine ⟨left.result s.bottomOdu, fun n hn => ?_, ?_⟩
    · rw [getBottomMappingOduFromHigher, if_pos hlists]
      show (if s.bottomOdu ≠ 0 then _ else _) = _
      rw [if_pos hfound, hleft n hn, Option.map_some]
    cases left with
    | ended c => exact .inl ⟨c.middleOduList, rfl⟩
    | raised c =>
        refine .inr ⟨rfl, ?_⟩
        rcases hraised c rfl with hnone | hnone
        · exact ⟨odu, hodu, haid ▸ hnone⟩
        · exact hnone

/-- **The bottom ODU is a tightest one** of those that carry the slots; the function returns it,
unless an AID of the list can not be cut. -/
theorem bottomOdu_tightest {oduList : List Odu} {higherOduId : Int}
    {oduMappingTribslotList : List Str} (hmany : 1 < oduMappingTribslotList.length)
    (hlower : bottomTribslot oduMappingTribslotList ≠ [])
    (hlists : ListsSlots (bottomTribslot oduMappingTribslotList))
    (hodus : ∀ odu ∈ oduList, ListsSlots odu.facTribslot)
    (hids : ∀ odu ∈ oduList, odu.facId ≠ 0) :
    ∃ bottomOdu, Tightest (bottomTribslot oduMappingTribslotList) oduList bottomOdu ∧
      ∃ result, (∀ n, 3 ≤ n → getBottomMappingOduFromHigher n oduList higherOduId
          oduMappingTribslotList = some result) ∧
        ((∃ middleOduList, result = .returned bottomOdu middleOduList) ∨
          (result = .raised ∧ ∃ odu ∈ oduList, getOduMuxNum odu.facAid = none)) :=
  ⟨_, tightest_findBottom hlower hlists hodus hids,
    getBottomMappingOduFromHigher_returns hmany hlower hids⟩

/-- An ODU with two slots and one with four. -/
def carriers : List Odu :=
  [⟨6, lit "ODU2-1-2-3", lit "1&2&3&4"⟩, ⟨5, lit "ODU1-1-2-3-1", lit "1&2"⟩]

theorem listsSlots_carriers : ∀ odu ∈ carriers, ListsSlots odu.facTribslot := by
  intro odu hodu
  simp only [carriers, List.mem_cons, List.not_mem_nil, or_false] at hodu
  rcases hodu with rfl | rfl
  · exact ⟨[1, 2, 3, 4], by decide, by decide⟩
  · exact ⟨[1, 2], by decide, by decide⟩

theorem bottomOdu_tightest_carriers :
    ∃ bottomOdu middleOduList, Tightest (lit "2") carriers bottomOdu ∧
      ∀ n, 3 ≤ n → getBottomMappingOduFromHigher n carriers 6 [[], lit "2", lit "0"] =
        some (.returned bottomOdu middleOduList) := by
  obtain ⟨bottomOdu, htightest, result, hends, ⟨middleOduList, rfl⟩ | ⟨-, odu, hodu, hnone⟩⟩ :=
    @bottomOdu_tightest carriers 6 [[], lit "2", lit "0"] (by decide) (by decide)
      ⟨[2], by decide, by decide⟩ listsSlots_carriers (by decide)
  · exact ⟨bottomOdu, middleOduList, htightest, hends⟩
  · -- their AIDs can be cut
    have hcut : ∀ odu ∈ carriers, getOduMuxNum odu.facAid ≠ none := by decide
    exact absurd hnone (hcut odu hodu)

/-- The ODU that carries the slots, with an AID whose shelf has four digits. -/
def farCarriers : List Odu := [⟨5, lit "ODU1-1000-2-3-1", lit "1&2"⟩]

/-- The shelf does not fit into a variable of `getOduMuxNum`, and the ODU is not returned. -/
theorem bottomOdu_raised_farCarriers :
    (∀ odu ∈ farCarriers, ListsSlots odu.facTribslot ∧ odu.facId ≠ 0) ∧
      (∃ odu ∈ farCarriers, slotsOf (lit "2") ⊆ slotsOf odu.facTribslot) ∧
      ∀ n, 3 ≤ n → getBottomMappingOduFromHigher n farCarriers 6 [[], lit "2", lit "0"] =
        some .raised := by
  have hlists : ListsSlots (lit "1&2") := ⟨[1, 2], by decide, by decide⟩
  refine ⟨by simp [farCarriers, hlists], ⟨_, List.mem_singleton.mpr rfl, ?_⟩, ?_⟩
  · exact (carries_iff (by decide) ⟨[2], by decide, by decide⟩ hlists).mp (by decide +kernel)
  · obtain ⟨result, hends, -⟩ := @getBottomMappingOduFromHigher_returns farCarriers 6
      [[], lit "2", lit "0"] (by decide) (by decide) (by decide)
    have hraised : getBottomMappingOduFromHigher 3 farCarriers 6 [[], lit "2", lit "0"] =
        some .raised := by rfl
    intro n hn
    rw [hends n hn, ← hends 3 (Nat.le_refl 3), hraised]

end Realwork.Circuit
