import Realwork.Circuit.Varchar
import Realwork.Lib.Loop

/-!
# Circuit — the chain of ODUs

`circuit_discovery.plsql`.  An ODU is multiplexed to another one if the AID of that one, without
its type, is what `getOduMuxNum` cuts out of its own.  `getBottomMappingOduFromHigher` climbs from
an ODU to those it is multiplexed to until it meets the higher ODU or finds no more.

* `lowers_muxTo`: an ODU is multiplexed to one with fewer parts in its AID.
* `climb_ends`: the climb ends, and no ODU is multiplexed to itself in the end.
-/

namespace Realwork.Circuit

open Lib

/-! ### The functions -/

/-- `aid_sts` without an `A`, `B` or `C` in front. -/
def withoutLetter (aidSts : Str) : Str :=
  if lit "A" <+: aidSts ∨ lit "B" <+: aidSts ∨ lit "C" <+: aidSts then substr aidSts 2 else aidSts

/-- `getOduMuxNum`; `none` is an exception. -/
def getOduMuxNum (oduAid : Str) : Option Str := do
  let aidTmp ← varchar2 50 oduAid
  let aidTmp := substr aidTmp (instr aidTmp hyphen + 1)
  let aidShelf ← varchar2 3 (substrOf aidTmp 1 (instr aidTmp hyphen - 1))
  -- `instrc` counts as `instr` does, a character is a byte here
  let aidTmp := substr aidTmp (instr aidTmp hyphen + 1)
  let aidSlot ← varchar2 3 (substrOf aidTmp 1 (instr aidTmp hyphen - 1))
  let aidTmp := substr aidTmp (instr aidTmp hyphen + 1)
  if 0 < instr aidTmp hyphen then
    let aidPort ← varchar2 3 (substrOf aidTmp 1 (instr aidTmp hyphen - 1))
    let aidTmp := substr aidTmp (instr aidTmp hyphen + 1)
    let aidSts ← varchar2 5
      (if 0 < instr aidTmp hyphen then substrOf aidTmp 1 (instr aidTmp hyphen - 1) else [])
    let aidSts := withoutLetter aidSts
    let aidTmp ← varchar2 50 (aidShelf ++ [hyphen] ++ aidSlot ++ [hyphen] ++ aidPort)
    if aidSts ≠ [] then varchar2 50 (aidTmp ++ [hyphen] ++ aidSts) else some aidTmp
  else some []

def trimAidType (facAid : Str) : Str := substr facAid (instr facAid hyphen + 1)

/-- `isOduMuxTo`; NULL is equal to nothing. -/
def isOduMuxTo (highOduAid lowOduAid : Str) : Option Nat := do
  let muxNum ← getOduMuxNum lowOduAid
  if muxNum ≠ [] ∧ trimAidType highOduAid = muxNum then some 1 else some 0

/-- `odu_t` -/
structure Odu where
  facId : Int
  facAid : Str
  facTribslot : Str
  deriving DecidableEq

/-- The loop over `odu_list`: the first ODU the AID is multiplexed to, if there is one. -/
def findMux (curOduAid : Str) : List Odu → Option (Option Odu)
  | [] => some none
  | odu :: oduList => do
      if 0 < (← isOduMuxTo odu.facAid curOduAid) then some (some odu)
      else findMux curOduAid oduList

/-- The variables of the loop that finds the middle ODUs. -/
structure Climb where
  curOdu : Int := 0
  curOduAid : Str
  /-- The ODUs whose `fac_id` is in `middle_odu_list`. -/
  middle : List Odu := []

namespace Climb

def middleOduList (s : Climb) : List Int := s.middle.map Odu.facId

/-- The ODU is the current one now. -/
def up (s : Climb) (odu : Odu) : Climb :=
  { curOdu := odu.facId, curOduAid := odu.facAid, middle := s.middle ++ [odu] }

end Climb

/-- How the loop is left. -/
inductive ClimbEnd where
  | ended (s : Climb)
  | raised (s : Climb)

def ClimbEnd.climb : ClimbEnd → Climb
  | ended s | raised s => s

/-- A round of the loop. -/
def climbRound (oduList : List Odu) (higherOduId : Int) (s : Climb) : Climb ⊕ ClimbEnd :=
  if s.curOdu = higherOduId then .inr (.ended s)
  else
    match findMux s.curOduAid oduList with
    | none => .inr (.raised { s with curOdu := 0 })
    | some none => .inr (.ended { s with curOdu := 0 })
    | some (some odu) => if odu.facId = 0 then .inr (.ended (s.up odu)) else .inl (s.up odu)

/-! ### The parts of an AID -/

/-- `isOduMuxTo(high, low) > 0` -/
def MuxTo (low high : Str) : Prop := ∃ mux ∈ isOduMuxTo high low, 0 < mux

/-- How often an AID can be cut: twice if it has more than three parts behind its type, and
another one after them. -/
def stages (aid : Str) : Nat := min ((trimAidType aid).count hyphen - 2) 2

/-- A part that is cut out of an AID has no hyphen. -/
theorem count_part {n : Nat} {aid part : Str}
    (h : varchar2 n (substrOf aid 1 (instr aid hyphen - 1)) = some part) :
    part.count hyphen = 0 := by
  rw [varchar2_eq_some h, List.count_eq_zero_of_not_mem (not_mem_substrOf aid hyphen)]

theorem withoutLetter_subset (aidSts : Str) : withoutLetter aidSts ⊆ aidSts := by
  rw [withoutLetter]
  split
  · exact List.drop_subset 1 aidSts
  · exact List.Subset.refl aidSts

/-- The part behind the port is one of those of the AID, if there is another one behind it. -/
theorem count_sts {aid sts : Str}
    (h : varchar2 5 (if 0 < instr aid hyphen then substrOf aid 1 (instr aid hyphen - 1) else []) =
      some sts) :
    (withoutLetter sts).count hyphen = 0 ∧ (withoutLetter sts ≠ [] → 0 < aid.count hyphen) := by
  have hsts := varchar2_eq_some h
  constructor
  · refine List.count_eq_zero_of_not_mem fun hmem => ?_
    have hmem := withoutLetter_subset sts hmem
    rw [hsts] at hmem
    split at hmem
    · exact not_mem_substrOf aid hyphen hmem
    · exact List.not_mem_nil hmem
  · intro hne
    by_contra hnone
    have hinstr : ¬ 0 < instr aid hyphen :=
      fun h => hnone (List.count_pos_iff.mpr (instr_pos_iff.mp h))
    rw [if_neg hinstr] at hsts
    rw [hsts] at hne
    exact hne rfl

/-- **What `getOduMuxNum` leaves** has three parts, and four only if it leaves some out. -/
theorem count_getOduMuxNum {oduAid num : Str} (h : getOduMuxNum oduAid = some num) :
    num = [] ∨ (num.count hyphen = 2 ∧ 3 ≤ (trimAidType oduAid).count hyphen) ∨
      (num.count hyphen = 3 ∧ 4 ≤ (trimAidType oduAid).count hyphen) := by
  simp only [getOduMuxNum, Option.bind_eq_bind, Option.bind_eq_some_iff] at h
  obtain ⟨aid, haid, shelf, hshelf, slot, hslot, h⟩ := h
  obtain rfl := varchar2_eq_some haid
  set aid₁ := substr aid (instr aid hyphen + 1) with haid₁
  set aid₂ := substr aid₁ (instr aid₁ hyphen + 1) with haid₂
  set aid₃ := substr aid₂ (instr aid₂ hyphen + 1) with haid₃
  have hcount : aid₃.count hyphen = (trimAidType aid).count hyphen - 2 := by
    rw [haid₃, count_substr, haid₂, count_substr, Nat.sub_sub]
    rfl
  clear_value aid₁ aid₂ aid₃
  split at h
  · rename_i hmore
    have hthree : 0 < aid₃.count hyphen := List.count_pos_iff.mpr (instr_pos_iff.mp hmore)
    simp only [Option.bind_eq_some_iff] at h
    obtain ⟨port, hport, sts, hsts, num', hnum', h⟩ := h
    obtain ⟨hsts, hbehind⟩ := count_sts hsts
    rw [count_substr] at hbehind
    obtain rfl := varchar2_eq_some hnum'
    have hparts : (shelf ++ [hyphen] ++ slot ++ [hyphen] ++ port).count hyphen = 2 := by
      simp only [List.count_append, List.count_singleton_self, count_part hshelf,
        count_part hslot, count_part hport]
    split at h
    · rename_i hsome
      have hfour := hbehind hsome
      obtain rfl := varchar2_eq_some h
      refine .inr (.inr ⟨?_, by omega⟩)
      rw [List.count_append, List.count_append, hparts, List.count_singleton_self, hsts]
    · obtain rfl := Option.some.inj h
      exact .inr (.inl ⟨hparts, by omega⟩)
  · exact .inl (Option.some.inj h).symm

/-- **An ODU is multiplexed to one with fewer stages.** -/
theorem lowers_muxTo : Lowers MuxTo stages := by
  rintro low high ⟨mux, h, hpos⟩
  simp only [Option.mem_def, isOduMuxTo, Option.bind_eq_bind, Option.bind_eq_some_iff] at h
  obtain ⟨num, hnum, h⟩ := h
  split at h
  · rename_i heq
    obtain ⟨hne, rfl⟩ := heq
    have hcount := count_getOduMuxNum hnum
    rw [or_iff_right hne] at hcount
    rw [stages, stages]
    omega
  · cases h
    exact absurd hpos (Nat.lt_irrefl 0)

/-! ### The climb -/

section

variable {oduList : List Odu} {higherOduId : Int} {start : Str} {s : Climb}

theorem findMux_eq_some {aid : Str} {odu : Odu} (h : findMux aid oduList = some (some odu)) :
    odu ∈ oduList ∧ MuxTo aid odu.facAid := by
  induction oduList with
  | nil => cases h
  | cons o oduList ih =>
      simp only [findMux, Option.bind_eq_bind, Option.bind_eq_some_iff] at h
      obtain ⟨mux, hmux, h⟩ := h
      split at h
      · rename_i hpos
        obtain rfl := Option.some.inj (Option.some.inj h)
        exact ⟨List.mem_cons_self, mux, hmux, hpos⟩
      · obtain ⟨hmem, hto⟩ := ih h
        exact ⟨List.mem_cons_of_mem o hmem, hto⟩

/-- Only `getOduMuxNum` raises an exception. -/
theorem findMux_eq_none {aid : Str} (h : findMux aid oduList = none) :
    getOduMuxNum aid = none := by
  cases hnum : getOduMuxNum aid with
  | none => rfl
  | some num =>
      exfalso
      induction oduList with
      | nil => cases h
      | cons odu oduList ih =>
          simp only [findMux, isOduMuxTo, hnum, Option.bind_eq_bind, Option.bind_some] at h
          split at h
          · cases h
          · exact ih h

/-- The ODUs that have been appended: each is one that the one before it is multiplexed to. -/
structure Climbed (oduList : List Odu) (start : Str) (s : Climb) : Prop where
  mem : ∀ odu ∈ s.middle, odu ∈ oduList
  chain : (start :: s.middle.map Odu.facAid).IsChain MuxTo
  cur : (start :: s.middle.map Odu.facAid).getLast? = some s.curOduAid

theorem Climbed.up (h : Climbed oduList start s) {odu : Odu} (hmem : odu ∈ oduList)
    (hto : MuxTo s.curOduAid odu.facAid) : Climbed oduList start (s.up odu) := by
  have hlist : start :: (s.up odu).middle.map Odu.facAid =
      (start :: s.middle.map Odu.facAid) ++ [odu.facAid] := by
    rw [Climb.up, List.map_append]
    rfl
  refine ⟨?_, ?_, ?_⟩
  · intro o ho
    rcases List.mem_append.mp ho with ho | ho
    · exact h.mem o ho
    · exact List.mem_singleton.mp ho ▸ hmem
  · rw [hlist]
    refine h.chain.append (List.isChain_singleton _) fun x hx y hy => ?_
    rw [h.cur] at hx
    cases hx
    cases hy
    exact hto
  · rw [hlist, List.getLast?_concat]
    rfl

/-- **What a round does**: it goes up to an ODU, or stays where it is and leaves the loop. -/
theorem climbRound_cases (oduList : List Odu) (higherOduId : Int) (s : Climb) :
    (∃ odu ∈ oduList, MuxTo s.curOduAid odu.facAid ∧
      (climbRound oduList higherOduId s = .inl (s.up odu) ∨
        climbRound oduList higherOduId s = .inr (.ended (s.up odu)))) ∨
    ∃ left, climbRound oduList higherOduId s = .inr left ∧ left.climb.middle = s.middle ∧
      left.climb.curOduAid = s.curOduAid := by
  rw [climbRound]
  split
  · exact .inr ⟨_, rfl, rfl, rfl⟩
  · cases hfind : findMux s.curOduAid oduList with
    | none => exact .inr ⟨_, rfl, rfl, rfl⟩
    | some found =>
        cases found with
        | none => exact .inr ⟨_, rfl, rfl, rfl⟩
        | some odu =>
            obtain ⟨hmem, hto⟩ := findMux_eq_some hfind
            refine .inl ⟨odu, hmem, hto, ?_⟩
            show (if odu.facId = 0 then _ else _) = _ ∨ (if odu.facId = 0 then _ else _) = _
            split
            · exact .inr rfl
            · exact .inl rfl

theorem Climbed.round_next {s' : Climb} (h : Climbed oduList start s)
    (hround : climbRound oduList higherOduId s = .inl s') :
    Climbed oduList start s' ∧ stages s'.curOduAid < stages s.curOduAid := by
  obtain ⟨odu, hmem, hto, heq | heq⟩ | ⟨left, heq, -⟩ := climbRound_cases oduList higherOduId s
  · rw [heq] at hround
    cases hround
    exact ⟨h.up hmem hto, lowers_muxTo _ _ hto⟩
  · rw [heq] at hround
    cases hround
  · rw [heq] at hround
    cases hround

theorem Climbed.round_leave {left : ClimbEnd} (h : Climbed oduList start s)
    (hround : climbRound oduList higherOduId s = .inr left) :
    Climbed oduList start left.climb := by
  obtain ⟨odu, hmem, hto, heq | heq⟩ | ⟨left', heq, hmiddle, hcur⟩ :=
    climbRound_cases oduList higherOduId s
  · rw [heq] at hround
    cases hround
  · rw [heq] at hround
    cases hround
    exact h.up hmem hto
  · rw [heq] at hround
    cases hround
    refine ⟨?_, ?_, ?_⟩
    · rw [hmiddle]
      exact h.mem
    · rw [hmiddle]
      exact h.chain
    · rw [hmiddle, hcur]
      exact h.cur

theorem Climbed.cur_mem (h : Climbed oduList start s) :
    s.curOduAid = start ∨ ∃ odu ∈ oduList, odu.facAid = s.curOduAid := by
  rcases List.mem_cons.mp (List.mem_of_getLast? h.cur) with hcur | hcur
  · exact .inl hcur
  · obtain ⟨odu, hodu, heq⟩ := List.mem_map.mp hcur
    exact .inr ⟨odu, h.mem odu hodu, heq⟩

theorem climbRound_raised {s' : Climb}
    (h : climbRound oduList higherOduId s = .inr (.raised s')) :
    getOduMuxNum s.curOduAid = none := by
  rw [climbRound] at h
  split at h
  · cases h
  · cases hfind : findMux s.curOduAid oduList with
    | none => exact findMux_eq_none hfind
    | some found =>
        cases found with
        | none =>
            rw [hfind] at h
            cases h
        | some odu =>
            rw [hfind] at h
            dsimp only at h
            split at h <;> cases h

/-- **The climb is left** in at most three rounds, and with an exception only if an AID that can not
be cut is reached. -/
theorem rounds_climb (oduList : List Odu) (higherOduId : Int) (start : Str) :
    ∃ left, (∀ n, 3 ≤ n →
        rounds (climbRound oduList higherOduId) n { curOduAid := start } = some left) ∧
      Climbed oduList start left.climb ∧
      ∀ s, left = .raised s →
        getOduMuxNum start = none ∨ ∃ odu ∈ oduList, getOduMuxNum odu.facAid = none := by
  have hstart : Climbed oduList start { curOduAid := start } :=
    ⟨by simp, List.isChain_singleton start, rfl⟩
  have hstages : stages start < 3 := Nat.lt_succ_of_le (Nat.min_le_right _ 2)
  have hleave (s : Climb) (left : ClimbEnd) (hs : Climbed oduList start s)
      (hround : climbRound oduList higherOduId s = .inr left) :
      Climbed oduList start left.climb ∧ ∀ s', left = .raised s' →
        getOduMuxNum start = none ∨ ∃ odu ∈ oduList, getOduMuxNum odu.facAid = none := by
    refine ⟨hs.round_leave hround, fun s' hraised => ?_⟩
    have hnone := climbRound_raised (hraised ▸ hround)
    obtain hcur | ⟨odu, hmem, hcur⟩ := hs.cur_mem
    · exact .inl (hcur ▸ hnone)
    · exact .inr ⟨odu, hmem, hcur ▸ hnone⟩
  obtain ⟨left, hleft, hend⟩ := rounds_spec (fun s : Climb => stages s.curOduAid)
    (fun s s' (hs : Climbed oduList start s) => hs.round_next) hleave hstart hstages
  exact ⟨left, fun n hn => rounds_mono hn hleft, hend⟩

end

/-- **The climb ends** after at most three rounds, wherever it starts: what it has appended are
different ODUs of the list, each of them one that the one before it is multiplexed to.  And no ODU
is multiplexed to itself in the end, so that a path of `CONNECT BY` has no row twice. -/
theorem climb_ends (oduList : List Odu) (higherOduId : Int) (start : Str) :
    (∃ left, (∀ n, 3 ≤ n →
        rounds (climbRound oduList higherOduId) n { curOduAid := start } = some left) ∧
      Climbed oduList start left.climb ∧ (left.climb.middle.map Odu.facAid).Nodup ∧
      ((∀ a ∈ oduList, ∀ b ∈ oduList, a.facId = b.facId → a = b) →
        left.climb.middleOduList.Nodup)) ∧
    (∀ aid, ¬ Relation.TransGen MuxTo aid aid) ∧
    ∀ path : List Odu, path.IsChain (fun prior row => MuxTo prior.facAid row.facAid) →
      path.Nodup := by
  refine ⟨?_, lowers_muxTo.not_transGen, fun path hpath => ?_⟩
  · obtain ⟨left, hleft, hclimbed, -⟩ := rounds_climb oduList higherOduId start
    have hnodup : (left.climb.middle.map Odu.facAid).Nodup :=
      (List.nodup_cons.mp (lowers_muxTo.nodup_of_isChain hclimbed.chain)).2
    refine ⟨left, hleft, hclimbed, hnodup, fun hkey => ?_⟩
    refine List.Nodup.map_on (fun a ha b hb => ?_) hnodup.of_map
    exact hkey a (hclimbed.mem a ha) b (hclimbed.mem b hb)
  · have hlowers : Lowers (fun prior row : Odu => MuxTo prior.facAid row.facAid)
        (fun odu => stages odu.facAid) := fun prior row h => lowers_muxTo _ _ h
    exact hlowers.nodup_of_isChain hpath

end Realwork.Circuit
