import Mathlib.Data.List.Nodup
import Realwork.Base.Decimal
import Realwork.Circuit.RptCache
import Realwork.Lib.Fields

/-!
# Circuit — the STS connections

`addSTSConnectionToList` of `circuit_discovery.plsql`.  A connection is an entry of
`g_sts_conn_list`, with the composite maps of its ends or without them; `g_sts_conn_array` has the
entries that have been added, and for each of them the one without maps.

* `Tidy.step`: a call keeps the list tidy unless it overwrites maps with none.
* `listedOnce_reach`: without such calls each connection is listed once.
-/

namespace Realwork.Circuit

open Lib

/-! ### The procedures -/

/-- `g_sts_conn_array` and `g_sts_conn_list`. -/
structure StsConns where
  array : IdxArray := fun _ => false
  list : List Str := []

/-- `to_char` of a number; NULL is the empty text. -/
def toChar : Option Int → Str
  | none => []
  | some n => decimal n

/-- `nvl(s, ' ')`; the empty text is NULL. -/
def nvl (s : Str) : Str := if s = [] then lit " " else s

/-- The NE and the end points of a connection. -/
structure Connection where
  neId : Option Int
  crsFromFacilityKey : Option Int
  crsToFacilityKey : Option Int
  deriving DecidableEq

namespace Connection

/-- `v_entity_id_nomap`, as it is assigned first. -/
def base (k : Connection) : Str :=
  toChar k.neId ++ lit "," ++ nvl (toChar k.crsFromFacilityKey) ++ lit "," ++
    nvl (toChar k.crsToFacilityKey)

def entityNomap (k : Connection) : Str := k.base ++ lit "," ++ lit " " ++ lit "," ++ lit " "

def entityWithmap (k : Connection) (fromCompositeMap toCompositeMap : Str) : Str :=
  k.base ++ lit "," ++ nvl fromCompositeMap ++ lit "," ++ nvl toCompositeMap

end Connection

/-- The arguments of a call; NULL is the empty map. -/
structure StsCall extends Connection where
  fromCompositeMap : Str
  toCompositeMap : Str
  overwrittenExisted : Bool := false
  /-- No exception comes from the facilities of the end points. -/
  facilitiesAdded : Bool := true

namespace StsCall

def nomap (c : StsCall) : Str := c.entityNomap

def withmap (c : StsCall) : Str := c.entityWithmap c.fromCompositeMap c.toCompositeMap

/-- The condition of the loop. -/
def replaces (c : StsCall) (e : Str) : Bool :=
  (e = c.nomap && !(e = c.withmap)) || (c.overwrittenExisted && e = c.withmap)

end StsCall

/-- `addSTSConnectionToListX`, on the list. -/
def addSTSConnectionToListX (c : StsCall) (s : StsConns) : StsConns :=
  let list := s.list.map fun e => if c.replaces e then c.withmap else e
  let duplicate := s.list.any c.replaces
  if duplicate = false ∧ c.facilitiesAdded = true then { s with list := list ++ [c.withmap] }
  else { s with list }

/-- `addSTSConnectionToList`.  An entity is a `VARCHAR2(2000)`: a longer one is an exception. -/
def addSTSConnectionToList (c : StsCall) (s : StsConns) : StsConns :=
  if c.crsFromFacilityKey ≠ none ∨ c.crsToFacilityKey ≠ none then
    if 2000 < c.withmap.length then s
    else if s.array c.nomap = false ∨ (s.array c.nomap = true ∧ s.array c.withmap = false) ∨
        c.overwrittenExisted = true then
      addSTSConnectionToListX c { s with
        array := Function.update (Function.update s.array c.nomap true) c.withmap true }
    else s
  else s

/-- The calls, from an empty list. -/
def stsMachine : Machine StsConns StsCall where
  start s := s.list = []
  step c s := some (addSTSConnectionToList c s)

/-! ### What the list is to be -/

/-- No entry is in the list twice, and no entry without maps is in it with one that has maps for
the same connection. -/
structure ListedOnce (list : List Str) : Prop where
  nodup : list.Nodup
  single : ∀ (k : Connection) (fromMap toMap : Str), k.entityNomap ∈ list →
    k.entityWithmap fromMap toMap ∈ list → k.entityWithmap fromMap toMap = k.entityNomap

/-- The call overwrites with an entry without maps, and the list has the connection with maps. -/
def StripsMaps (c : StsCall) (s : StsConns) : Prop :=
  c.overwrittenExisted = true ∧ c.facilitiesAdded = true ∧ c.withmap = c.nomap ∧
    ∃ fromMap toMap, c.entityWithmap fromMap toMap ∈ s.list ∧
      c.entityWithmap fromMap toMap ≠ c.nomap

/-! ### Entries -/

theorem comma_not_mem_toChar (n : Option Int) : 0x2c ∉ toChar n := by
  intro h
  cases n with
  | none => cases h
  | some n => exact absurd (mem_decimal h) (by decide)

theorem comma_not_mem_nvl {s : Str} (h : 0x2c ∉ s) : 0x2c ∉ nvl s := by
  rw [nvl]
  split
  · decide
  · exact h

/-- An entry has the fields of its connection up to the third delimiter. -/
theorem entityNomap_of_withmap {k k' : Connection} {fromMap toMap fromMap' toMap' : Str}
    (h : k.entityWithmap fromMap toMap = k'.entityWithmap fromMap' toMap') :
    k.entityNomap = k'.entityNomap := by
  have hfields (k : Connection) (fromMap toMap : Str) : k.entityWithmap fromMap toMap =
      toChar k.neId ++ 0x2c :: (nvl (toChar k.crsFromFacilityKey) ++
        0x2c :: (nvl (toChar k.crsToFacilityKey) ++
          0x2c :: (nvl fromMap ++ 0x2c :: nvl toMap))) := by
    simp [Connection.entityWithmap, Connection.base, lit]
  have hend (n : Option Int) : 0x2c ∉ nvl (toChar n) := comma_not_mem_nvl (comma_not_mem_toChar n)
  rw [hfields, hfields, append_cons_inj (comma_not_mem_toChar _) (comma_not_mem_toChar _),
    append_cons_inj (hend _) (hend _), append_cons_inj (hend _) (hend _)] at h
  obtain ⟨hne, hfrom, hto, -⟩ := h
  rw [Connection.entityNomap, Connection.entityNomap, Connection.base, Connection.base, hne, hfrom,
    hto]

theorem entityWithmap_congr {k k' : Connection} (h : k.entityNomap = k'.entityNomap)
    (fromMap toMap : Str) : k.entityWithmap fromMap toMap = k'.entityWithmap fromMap toMap := by
  have hbase : k.base = k'.base := by
    simpa [Connection.entityNomap, List.append_assoc] using h
  rw [Connection.entityWithmap, Connection.entityWithmap, hbase]

/-- The list is as it is to be, and the array has its entries, and those without their maps. -/
structure Tidy (s : StsConns) : Prop extends ListedOnce s.list where
  marked : ∀ (k : Connection) (fromMap toMap : Str), k.entityWithmap fromMap toMap ∈ s.list →
    s.array k.entityNomap = true ∧ s.array (k.entityWithmap fromMap toMap) = true

/-! ### The calls -/

section

variable {c : StsCall} {s : StsConns}

/-- The array before the list is searched. -/
def StsConns.marks (s : StsConns) (c : StsCall) : StsConns :=
  { s with array := Function.update (Function.update s.array c.nomap true) c.withmap true }

theorem marks_nomap : (s.marks c).array c.nomap = true := by
  simp [StsConns.marks, Function.update_apply]

theorem marks_withmap : (s.marks c).array c.withmap = true := Function.update_self ..

theorem marks_of_marked {e : Str} (h : s.array e = true) : (s.marks c).array e = true := by
  simp [StsConns.marks, Function.update_apply, h]

/-- What the loop does to an entry: only the one without maps is changed. -/
def StsCall.giveMaps (c : StsCall) (e : Str) : Str := if e = c.nomap then c.withmap else e

theorem ite_replaces (c : StsCall) (e : Str) :
    (if c.replaces e then c.withmap else e) = c.giveMaps e := by
  rw [StsCall.giveMaps, StsCall.replaces]
  by_cases hnomap : e = c.nomap
  · by_cases hwithmap : e = c.withmap
    · rw [← hwithmap, ite_self, ite_self]
    · simp [hnomap, hnomap ▸ hwithmap]
  · by_cases hwithmap : e = c.withmap
    · rw [← hwithmap, ite_self, if_neg hnomap]
    · simp [hnomap, hwithmap]

theorem any_replaces {list : List Str} :
    list.any c.replaces = true ↔
      (c.nomap ∈ list ∧ c.nomap ≠ c.withmap) ∨
        (c.overwrittenExisted = true ∧ c.withmap ∈ list) := by
  simp only [List.any_eq_true, StsCall.replaces, Bool.or_eq_true, Bool.and_eq_true,
    Bool.not_eq_true', decide_eq_true_eq, decide_eq_false_iff_not]
  constructor
  · rintro ⟨e, he, ⟨rfl, hne⟩ | ⟨hover, rfl⟩⟩
    · exact .inl ⟨he, hne⟩
    · exact .inr ⟨hover, he⟩
  · rintro (⟨he, hne⟩ | ⟨hover, he⟩)
    · exact ⟨_, he, .inl ⟨rfl, hne⟩⟩
    · exact ⟨_, he, .inr ⟨hover, rfl⟩⟩

theorem mem_map_giveMaps {list : List Str} {e : Str} (h : e ∈ list.map c.giveMaps) :
    (e ∈ list ∧ e ≠ c.nomap) ∨ (e = c.withmap ∧ c.nomap ∈ list) := by
  obtain ⟨a, ha, rfl⟩ := List.mem_map.mp h
  rw [StsCall.giveMaps]
  split
  · rename_i hnomap
    exact .inr ⟨rfl, hnomap ▸ ha⟩
  · rename_i hnomap
    exact .inl ⟨ha, hnomap⟩

/-- Where the entry without maps is not listed, or is the one of the call, the loop changes
nothing. -/
theorem map_giveMaps_eq_self {list : List Str} (h : c.nomap ∈ list → c.nomap = c.withmap) :
    list.map c.giveMaps = list := by
  refine (List.map_congr_left fun e he => ?_).trans (List.map_id _)
  rw [StsCall.giveMaps, id]
  split
  · rename_i heq
    exact (heq.trans (h (heq ▸ he))).symm
  · rfl

/-- An entry of the connection of the call has its entry without maps. -/
theorem nomap_eq {k : Connection} {fromMap toMap : Str}
    (h : k.entityWithmap fromMap toMap = c.withmap) : k.entityNomap = c.nomap :=
  entityNomap_of_withmap h

theorem nomap_eq_of_nomap {k : Connection} (h : k.entityNomap = c.withmap) :
    k.entityNomap = c.nomap :=
  entityNomap_of_withmap (show k.entityWithmap [] [] = c.withmap from h)

/-- Giving the maps to the entry that has none keeps the list tidy. -/
theorem Tidy.giveMaps (h : Tidy s) :
    Tidy { s.marks c with list := s.list.map c.giveMaps } where
  nodup := by
    refine h.nodup.map_on fun a ha b hb heq => ?_
    have hboth (hn : c.nomap ∈ s.list) (hw : c.withmap ∈ s.list) : c.withmap = c.nomap :=
      h.single _ _ _ hn hw
    rw [StsCall.giveMaps, StsCall.giveMaps] at heq
    split at heq <;> split at heq
    · simp_all
    · simp_all
    · simp_all
    · exact heq
  single k fromMap toMap hnomap hwithmap := by
    rcases mem_map_giveMaps hnomap with ⟨hn, hne⟩ | ⟨hn, hlisted⟩
    · rcases mem_map_giveMaps hwithmap with ⟨hw, -⟩ | ⟨hw, -⟩
      · exact h.single k fromMap toMap hn hw
      · exact absurd (nomap_eq hw) hne
    · rcases mem_map_giveMaps hwithmap with ⟨hw, -⟩ | ⟨hw, -⟩
      · exact h.single k fromMap toMap (nomap_eq_of_nomap hn ▸ hlisted) hw
      · exact hw.trans hn.symm
  marked k fromMap toMap hwithmap := by
    rcases mem_map_giveMaps hwithmap with ⟨hw, -⟩ | ⟨hw, -⟩
    · obtain ⟨hn, he⟩ := h.marked k fromMap toMap hw
      exact ⟨marks_of_marked hn, marks_of_marked he⟩
    · rw [hw, nomap_eq hw]
      exact ⟨marks_nomap, marks_withmap⟩

/-- Adding an entry keeps the list tidy if neither it nor another one of the connection, of which
one has no maps, is listed. -/
theorem Tidy.append (h : Tidy s) (hnew : c.withmap ∉ s.list)
    (hnomap : c.nomap ∈ s.list → c.nomap = c.withmap)
    (hmaps : c.withmap = c.nomap → ∀ fromMap toMap, c.entityWithmap fromMap toMap ∈ s.list →
      c.entityWithmap fromMap toMap = c.nomap) :
    Tidy { s.marks c with list := s.list ++ [c.withmap] } where
  nodup := by
    rw [List.nodup_append]
    refine ⟨h.nodup, List.nodup_singleton _, fun a ha b hb => ?_⟩
    rw [List.mem_singleton.mp hb]
    rintro rfl
    exact hnew ha
  single k fromMap toMap hn hw := by
    rw [List.mem_append, List.mem_singleton] at hn hw
    rcases hn with hn | hn
    · rcases hw with hw | hw
      · exact h.single k fromMap toMap hn hw
      · rw [hw, nomap_eq hw, hnomap (nomap_eq hw ▸ hn)]
    · rcases hw with hw | hw
      · have hk := nomap_eq_of_nomap hn
        rw [entityWithmap_congr hk] at hw ⊢
        exact (hmaps (hn.symm.trans hk) fromMap toMap hw).trans hk.symm
      · exact hw.trans hn.symm
  marked k fromMap toMap hw := by
    rw [List.mem_append, List.mem_singleton] at hw
    rcases hw with hw | hw
    · obtain ⟨hn, he⟩ := h.marked k fromMap toMap hw
      exact ⟨marks_of_marked hn, marks_of_marked he⟩
    · rw [hw, nomap_eq hw]
      exact ⟨marks_nomap, marks_withmap⟩

theorem Tidy.addX (h : Tidy s) (hstrips : ¬ StripsMaps c s)
    (hnew : s.array c.nomap = false ∨ (s.array c.nomap = true ∧ s.array c.withmap = false) ∨
      c.overwrittenExisted = true) :
    Tidy (addSTSConnectionToListX c (s.marks c)) := by
  have hloop : ((s.marks c).list.map fun e => if c.replaces e then c.withmap else e) =
      s.list.map c.giveMaps := List.map_congr_left fun e _ => ite_replaces c e
  rw [addSTSConnectionToListX, hloop]
  split
  · rename_i hadd
    obtain ⟨hduplicate, hadded⟩ := hadd
    rw [← Bool.not_eq_true, any_replaces, not_or, not_and_not_right] at hduplicate
    obtain ⟨hnomap, hover⟩ := hduplicate
    -- What is listed has been marked, so it is only added again where it is to be overwritten.
    have hmarked {fromMap toMap : Str} (he : c.entityWithmap fromMap toMap ∈ s.list)
        (hwithmap : s.array c.withmap = true) : c.overwrittenExisted = true := by
      have hn : s.array c.nomap = true := (h.marked _ _ _ he).1
      simpa [hn, hwithmap] using hnew
    rw [@map_giveMaps_eq_self c s.list hnomap]
    refine h.append (fun hw => ?_) hnomap fun heq fromMap toMap he => ?_
    · exact hover ⟨hmarked hw (h.marked _ _ _ hw).2, hw⟩
    · by_contra hne
      exact hstrips ⟨hmarked he (heq ▸ (h.marked _ _ _ he).1), hadded, heq, fromMap, toMap, he, hne⟩
  · exact h.giveMaps

/-- **A call keeps the list tidy**, unless it overwrites maps with none. -/
theorem Tidy.step (h : Tidy s) (hstrips : ¬ StripsMaps c s) :
    Tidy (addSTSConnectionToList c s) := by
  rw [addSTSConnectionToList]
  split
  · split
    · exact h
    · split
      · rename_i hnew
        exact h.addX hstrips hnew
      · exact h
  · exact h

/-- A call that overwrites maps with none, and is not refused, lists the connection twice. -/
theorem Tidy.not_listedOnce_step (h : Tidy s) (hstrips : StripsMaps c s)
    (hends : c.crsFromFacilityKey ≠ none ∨ c.crsToFacilityKey ≠ none)
    (hlen : c.withmap.length ≤ 2000) : ¬ ListedOnce (addSTSConnectionToList c s).list := by
  obtain ⟨hover, hadded, heq, fromMap, toMap, he, hne⟩ := hstrips
  have hnew : c.nomap ∉ s.list := fun hn => hne (h.single _ _ _ hn he)
  have hduplicate : s.list.any c.replaces = false := by
    rw [← Bool.not_eq_true, any_replaces, heq]
    simp [hnew]
  have hlist : (addSTSConnectionToList c s).list = s.list ++ [c.nomap] := by
    rw [addSTSConnectionToList, if_pos hends, if_neg (Nat.not_lt.mpr hlen),
      if_pos (.inr (.inr hover)), addSTSConnectionToListX, if_pos ⟨hduplicate, hadded⟩, heq]
    show s.list.map (fun e => if c.replaces e then c.nomap else e) ++ [c.nomap] = _
    rw [← heq, List.map_congr_left fun e _ => ite_replaces c e,
      map_giveMaps_eq_self fun hn => absurd hn hnew]
  intro hlisted
  refine hne (hlisted.single c.toConnection fromMap toMap ?_ ?_)
  · rw [hlist]
    exact List.mem_append_right _ (List.mem_singleton_self _)
  · rw [hlist]
    exact List.mem_append_left _ he

end

/-- **Each connection is listed once**, in every run in which no call overwrites maps with none. -/
theorem listedOnce_reach {s : StsConns} (h : stsMachine.Reach (fun c s => ¬ StripsMaps c s) s) :
    ListedOnce s.list := by
  have htidy : Tidy s := by
    refine h.invariant (fun s hs => ?_) fun c s s' hs hc hstep => ?_
    · have hnil : s.list = [] := hs
      exact ⟨⟨by simp [hnil], by simp [hnil]⟩, by simp [hnil]⟩
    · cases hstep
      exact hs.step hc
  exact htidy.toListedOnce

/-- A connection of an NE with maps, and without. -/
def mappedCall : StsCall where
  neId := some 7
  crsFromFacilityKey := some 11
  crsToFacilityKey := some 12
  fromCompositeMap := lit "1&2"
  toCompositeMap := lit "3&4"

def unmappedCall : StsCall :=
  { mappedCall with fromCompositeMap := [], toCompositeMap := [], overwrittenExisted := true }

theorem listedOnce_reach_mapped :
    ListedOnce (addSTSConnectionToList mappedCall
      (addSTSConnectionToList unmappedCall {})).list := by
  refine listedOnce_reach (.step (a := mappedCall)
    (.step (a := unmappedCall) (.start (show stsMachine.start {} from rfl)) ?_ rfl) ?_ rfl)
  · rintro ⟨-, -, -, fromMap, toMap, hlisted, -⟩
    cases hlisted
  · rintro ⟨hover, -⟩
    cases hover

/-- The connection without maps is listed next to the one with maps, and then the one with maps
twice. -/
theorem not_listedOnce_unmapped :
    ¬ ListedOnce (addSTSConnectionToList unmappedCall (addSTSConnectionToList mappedCall {})).list ∧
      (addSTSConnectionToList { mappedCall with overwrittenExisted := true }
        (addSTSConnectionToList unmappedCall (addSTSConnectionToList mappedCall {}))).list =
        [mappedCall.withmap, mappedCall.withmap] := by
  refine ⟨fun h => ?_, by decide +kernel⟩
  have heq := h.single mappedCall.toConnection (lit "1&2") (lit "3&4") (by decide +kernel)
    (by decide +kernel)
  revert heq
  decide +kernel

end Realwork.Circuit
