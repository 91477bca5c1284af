import Realwork.Circuit.Number
import Realwork.Circuit.RptCache
import Realwork.Circuit.StsConnections
import Realwork.Lib.Once

/-!
# Circuit — links

`addFiberLinkToList`, `addCompositeLinkToList` and `addODUCompositeLinkToList` of
`circuit_discovery.plsql`.  A discovery can come to a link from either of its ends; the entry of
the link has the ends in an order of their own, by the ids of the facilities for a fibre, and by
the slots in the AIDs for a composite link.

* `puts_perform`: a call puts its entry into the list unless it is there.
* `listed_exec`: the list has the entries of the calls, each of them once.
* `links_listedOnce_iff`: when a link is listed once from whichever end it is found.
-/

namespace Realwork.Circuit

open Lib

/-! ### The procedures -/

/-- `g_delimiter` -/
def delimiter : UInt8 := 0x2c

/-- A text without the delimiter: the entries are cut at it again. -/
abbrev Field := {s : Str // delimiter ∉ s}

/-- An end of a fibre: the parameters of `addFiberLinkToList` for it. -/
structure FiberEnd where
  neId : Option Int
  endSide : Field
  endAid : Field
  xcEndAid : Field
  endId : Int
  xcEndId : Option Int

/-- An end of a composite link. -/
structure CompositeEnd where
  neId : Option Int
  ochDP : Field
  side : Field

/-- The package's variables that the procedures use. -/
structure LinkDiscovery extends Discovery where
  /-- `g_flink_end_array` -/
  flinkEndArray : Str → Option Int := fun _ => none

def FiberEnd.fields (e : FiberEnd) : List Str := [toChar e.neId, e.endSide, e.endAid, e.xcEndAid]

/-- `linkInfo` of a fibre, from its end `a`. -/
def fiberInfo (a z : FiberEnd) : List Str := a.fields ++ z.fields ++ [lit "FIBERLINK"]

/-- `linkInfo` of a composite link, from its end `a`. -/
def compositeInfo (a z : CompositeEnd) (xcchanNum : Option Int) : List Str :=
  [toChar a.neId, toChar z.neId, a.ochDP, z.ochDP, nvl a.side, nvl z.side,
    toChar (some (xcchanNum.getD 0)), lit "COMPOSITELINK"]

/-- The fields with `g_delimiter` between them. -/
def delimited (fields : List Str) : Str := [delimiter].intercalate fields

/-- `INSTR(s, c, 1, 2)` -/
def instrSecond (s : Str) (c : UInt8) : Nat :=
  if 0 < instr s c then instrFrom s c (instr s c + 1) else 0

/-- The number of the slot in an AID; the outer `none` is an exception. -/
def slotOf (ochDP : Str) : Option Number := do
  let tempStr ← varchar2 20 (substr ochDP (instrSecond ochDP hyphen + 1))
  toNumber (substrOf tempStr 1 (instr tempStr hyphen - 1))

/-- `slotFrom < slotTo`; it is not true of NULL. -/
def numberLess : Number → Number → Bool
  | some slotFrom, some slotTo => slotFrom < slotTo
  | _, _ => false

/-- The slot of an end, NULL also if its AID is one that raises an exception. -/
def CompositeEnd.slot (e : CompositeEnd) : Number := (slotOf e.ochDP).getD none

def constructLinkInfo (fromEnd toEnd : CompositeEnd) (xcchanNum : Option Int) : Option Str := do
  let slotFrom ← slotOf fromEnd.ochDP
  let slotTo ← slotOf toEnd.ochDP
  varchar2 1000 (delimited
    (if numberLess slotFrom slotTo then compositeInfo fromEnd toEnd xcchanNum
    else compositeInfo toEnd fromEnd xcchanNum))

/-- `g_flink_end_array(xcEndId) := endId`; a key is not NULL. -/
def noteEnd (e : FiberEnd) (flinkEndArray : Str → Option Int) : Option (Str → Option Int) := do
  let key ← varchar2 40 (toChar e.xcEndId)
  if key = [] then none else some (Function.update flinkEndArray key (some e.endId))

/-- `addFiberLinkToList`; `none` is an exception. -/
def addFiberLinkToList (a z : FiberEnd) (s : LinkDiscovery) : Option LinkDiscovery := do
  let linkInfo ← varchar2 350 (delimited
    (if a.endId < z.endId then fiberInfo a z else fiberInfo z a))
  if s.arrays .links linkInfo then some s
  else do
    let discovery ← (s.mark .links linkInfo).addLinkToListX linkInfo true
    let flinkEndArray ← noteEnd a s.flinkEndArray
    let flinkEndArray ← noteEnd z flinkEndArray
    return { toDiscovery := discovery, flinkEndArray }

/-- `addCompositeLinkToList`; `none` is an exception. -/
def addCompositeLinkToList (fromEnd toEnd : CompositeEnd) (xcchanNum : Option Int)
    (s : LinkDiscovery) : Option LinkDiscovery := do
  let linkInfo ← constructLinkInfo fromEnd toEnd xcchanNum
  if s.arrays .links linkInfo then some s
  else do
    let discovery ← (s.mark .links linkInfo).addLinkToListX linkInfo false
    return { s with toDiscovery := discovery }

/-- `addODUCompositeLinkToList` does what `addCompositeLinkToList` does. -/
def addODUCompositeLinkToList : CompositeEnd → CompositeEnd → Option Int → LinkDiscovery →
    Option LinkDiscovery := addCompositeLinkToList

/-! ### Calls -/

/-- A call of one of the procedures. -/
inductive LinkCall where
  | fiber (a z : FiberEnd)
  | composite (fromEnd toEnd : CompositeEnd) (xcchanNum : Option Int)
  | oduComposite (fromEnd toEnd : CompositeEnd) (xcchanNum : Option Int)

namespace LinkCall

def perform : LinkCall → LinkDiscovery → Option LinkDiscovery
  | fiber a z => addFiberLinkToList a z
  | composite fromEnd toEnd xcchanNum => addCompositeLinkToList fromEnd toEnd xcchanNum
  | oduComposite fromEnd toEnd xcchanNum => addODUCompositeLinkToList fromEnd toEnd xcchanNum

/-- The link as it is described from the end that is reported first. -/
def fields : LinkCall → List Str
  | fiber a z => fiberInfo a z
  | composite fromEnd toEnd xcchanNum | oduComposite fromEnd toEnd xcchanNum =>
      compositeInfo fromEnd toEnd xcchanNum

def text (c : LinkCall) : Str := delimited c.fields

/-- The call with the ends exchanged. -/
def swap : LinkCall → LinkCall
  | fiber a z => fiber z a
  | composite fromEnd toEnd xcchanNum => composite toEnd fromEnd xcchanNum
  | oduComposite fromEnd toEnd xcchanNum => oduComposite toEnd fromEnd xcchanNum

/-- The entries of `list` for the link of the call, whichever end they begin with. -/
def entries (c : LinkCall) (list : List Str) : List Str := entriesOf text swap c list

/-- The ends of the fibre. -/
def fiberEnds : LinkCall → List FiberEnd
  | fiber a z => [a, z]
  | _ => []

/-- The two ends of a composite link have the same slot number, or one of them has none. -/
def Tied : LinkCall → Prop
  | fiber _ _ => False
  | composite fromEnd toEnd _ | oduComposite fromEnd toEnd _ =>
      fromEnd.slot = toEnd.slot ∨ fromEnd.slot = none ∨ toEnd.slot = none

instance : (c : LinkCall) → Decidable c.Tied
  | fiber _ _ => .isFalse id
  | composite _ _ _ | oduComposite _ _ _ => inferInstanceAs (Decidable (_ ∨ _ ∨ _))

end LinkCall

/-- Calls, from the empty list on. -/
def linkMachine : Machine LinkDiscovery LinkCall where
  start s := s.lists .links = some [] ∧ ∀ e, s.arrays .links e = false
  step := LinkCall.perform

/-- `g_link_list` -/
def LinkDiscovery.linkList (s : LinkDiscovery) : List Str := (s.lists .links).getD []

/-- An end of a fibre that both calls report has the same id in them. -/
def SameIds (c c' : LinkCall) : Prop :=
  ∀ e ∈ c.fiberEnds, ∀ e' ∈ c'.fiberEnds, e.fields = e'.fields → e.endId = e'.endId

/-- The calls report links: their two ends differ, those of a fibre in their ids, and an end of a
fibre has its id in every report. -/
structure ReportLinks (calls : List LinkCall) : Prop where
  distinct : ∀ c ∈ calls, c.fields ≠ c.swap.fields
  fibers : ∀ a z, .fiber a z ∈ calls → a.endId ≠ z.endId
  ids : ∀ c ∈ calls, ∀ c' ∈ calls, SameIds c c'

/-! ### What a call does -/

namespace LinkCall

/-- The end that is reported first comes first in the entry. -/
def comesFirst : LinkCall → Bool
  | fiber a z => a.endId < z.endId
  | composite fromEnd toEnd _ | oduComposite fromEnd toEnd _ =>
      numberLess fromEnd.slot toEnd.slot

/-- The entry of the call. -/
def entry (c : LinkCall) : Str := normalText text swap comesFirst c

end LinkCall

section

variable {s s' : LinkDiscovery} {c c' : LinkCall}

/-- `e` is put into the list and the array. -/
theorem addLinkToListX_mark {s d : Discovery} {e : Str} {addToRptCache : Bool}
    (h : (s.mark .links e).addLinkToListX e addToRptCache = some d) :
    (d.lists .links).getD [] = (s.lists .links).getD [] ++ [e] ∧
      ∀ e', d.arrays .links e' = true ↔ s.arrays .links e' = true ∨ e' = e := by
  obtain ⟨d₁, hd₁, h⟩ := Option.bind_eq_some_iff.mp h
  obtain ⟨list, hlist, hd₁⟩ := Option.bind_eq_some_iff.mp hd₁
  cases hd₁
  have hupdate : Function.update s.lists .links list .links = list := Function.update_self ..
  have hd : d.lists .links = list ∧ d.arrays = (s.mark .links e).arrays := by
    split at h
    · obtain ⟨rptList, -, h⟩ := Option.bind_eq_some_iff.mp h
      cases h
      exact ⟨hupdate, rfl⟩
    · cases h
      exact ⟨hupdate, rfl⟩
  rw [hd.1, hd.2, Discovery.extend_eq_some hlist]
  refine ⟨rfl, fun e' => (Discovery.mark_arrays .links e').trans ?_⟩
  simp

/-- The entry of the call is in the list, or it is put there. -/
def Puts (e : Str) (s s' : LinkDiscovery) : Prop :=
  (s.arrays .links e = true ∧ s' = s) ∨
    (s.arrays .links e = false ∧ s'.linkList = s.linkList ++ [e] ∧
      ∀ e', s'.arrays .links e' = true ↔ s.arrays .links e' = true ∨ e' = e)

theorem puts_addFiberLinkToList {a z : FiberEnd} (h : addFiberLinkToList a z s = some s') :
    Puts (LinkCall.fiber a z).entry s s' := by
  obtain ⟨linkInfo, hinfo, h⟩ := Option.bind_eq_some_iff.mp h
  have hentry : linkInfo = (LinkCall.fiber a z).entry := by
    rw [varchar2_eq_some hinfo, LinkCall.entry, normalText]
    by_cases hfirst : a.endId < z.endId
    · simp [hfirst, LinkCall.comesFirst, LinkCall.text, LinkCall.fields]
    · simp [hfirst, LinkCall.comesFirst, LinkCall.text, LinkCall.fields, LinkCall.swap]
  rw [← hentry]
  split at h
  · rename_i hmarked
    cases h
    exact .inl ⟨hmarked, rfl⟩
  · rename_i hmarked
    obtain ⟨d, hd, h⟩ := Option.bind_eq_some_iff.mp h
    obtain ⟨flink, -, h⟩ := Option.bind_eq_some_iff.mp h
    obtain ⟨flink', -, h⟩ := Option.bind_eq_some_iff.mp h
    cases h
    exact .inr ⟨Bool.eq_false_iff.mpr hmarked, addLinkToListX_mark hd⟩

theorem puts_addCompositeLinkToList {fromEnd toEnd : CompositeEnd} {xcchanNum : Option Int}
    (h : addCompositeLinkToList fromEnd toEnd xcchanNum s = some s') :
    Puts (LinkCall.composite fromEnd toEnd xcchanNum).entry s s' := by
  obtain ⟨linkInfo, hinfo, h⟩ := Option.bind_eq_some_iff.mp h
  have hentry : linkInfo = (LinkCall.composite fromEnd toEnd xcchanNum).entry := by
    obtain ⟨slotFrom, hfrom, hinfo⟩ := Option.bind_eq_some_iff.mp hinfo
    obtain ⟨slotTo, hto, hinfo⟩ := Option.bind_eq_some_iff.mp hinfo
    rw [varchar2_eq_some hinfo, LinkCall.entry, normalText, LinkCall.comesFirst,
      CompositeEnd.slot, CompositeEnd.slot, hfrom, hto, apply_ite delimited]
    rfl
  rw [← hentry]
  split at h
  · rename_i hmarked
    cases h
    exact .inl ⟨hmarked, rfl⟩
  · rename_i hmarked
    obtain ⟨d, hd, h⟩ := Option.bind_eq_some_iff.mp h
    cases h
    exact .inr ⟨Bool.eq_false_iff.mpr hmarked, addLinkToListX_mark hd⟩

/-- **What a call does.** -/
theorem puts_perform (h : c.perform s = some s') : Puts c.entry s s' := by
  cases c with
  | fiber a z => exact puts_addFiberLinkToList h
  | composite fromEnd toEnd xcchanNum => exact puts_addCompositeLinkToList h
  | oduComposite fromEnd toEnd xcchanNum => exact puts_addCompositeLinkToList h

/-- The list has the entries of the calls, each of them once, and the array has them too. -/
structure Listed (calls : List LinkCall) (s : LinkDiscovery) : Prop where
  nodup : s.linkList.Nodup
  mem : ∀ e, e ∈ s.linkList ↔ ∃ c ∈ calls, c.entry = e
  marked : ∀ e, s.arrays .links e = true ↔ e ∈ s.linkList

theorem Listed.of_start (h : linkMachine.start s) : Listed [] s := by
  have hnil : s.linkList = [] := by
    rw [LinkDiscovery.linkList, h.1]
    rfl
  refine ⟨?_, fun e => ?_, fun e => ?_⟩
  · rw [hnil]
    exact List.nodup_nil
  · simp [hnil]
  · simp [hnil, h.2]

/-- **A call keeps the list.** -/
theorem Listed.perform {calls : List LinkCall} (hs : Listed calls s)
    (h : c.perform s = some s') : Listed (calls ++ [c]) s' := by
  have hcalls (e : Str) : (∃ c' ∈ calls ++ [c], c'.entry = e) ↔ e ∈ s.linkList ∨ e = c.entry := by
    rw [hs.mem]
    constructor
    · rintro ⟨c', hc', rfl⟩
      rw [List.mem_append, List.mem_singleton] at hc'
      rcases hc' with hc' | rfl
      · exact .inl ⟨c', hc', rfl⟩
      · exact .inr rfl
    · rintro (⟨c', hc', rfl⟩ | rfl)
      · exact ⟨c', List.mem_append_left _ hc', rfl⟩
      · exact ⟨c, List.mem_append_right _ (List.mem_singleton_self c), rfl⟩
  obtain ⟨hmarked, rfl⟩ | ⟨hmarked, hlist, harray⟩ := puts_perform h
  · refine ⟨hs.nodup, fun e => ?_, hs.marked⟩
    rw [hcalls]
    refine ⟨.inl, ?_⟩
    rintro (he | rfl)
    · exact he
    · exact (hs.marked _).mp hmarked
  · have hnew : c.entry ∉ s.linkList := by
      rw [← hs.marked, hmarked]
      exact Bool.false_ne_true
    have hadd : s'.linkList = addOnce s.linkList c.entry := by rw [hlist, addOnce, if_neg hnew]
    refine ⟨?_, fun e => ?_, fun e => ?_⟩
    · rw [hadd]
      exact nodup_addOnce hs.nodup _
    · rw [hcalls, hadd, mem_addOnce]
    · rw [harray, hadd, mem_addOnce, hs.marked]

/-- **What the calls leave**, by induction on the calls. -/
theorem listed_exec {calls done : List LinkCall} (hs : Listed done s)
    (h : linkMachine.exec calls s = some s') : Listed (done ++ calls) s' := by
  induction calls generalizing done s with
  | nil =>
      cases h
      rwa [List.append_nil]
  | cons c calls ih =>
      obtain ⟨s₁, hs₁, h⟩ := Option.bind_eq_some_iff.mp h
      rw [List.append_cons]
      exact ih (hs.perform hs₁) h

end

/-! ### Reports of one link -/

section

variable {c c' : LinkCall}

theorem delimiter_not_mem_fields (c : LinkCall) : ∀ field ∈ c.fields, delimiter ∉ field := by
  have hnumber (n : Option Int) : delimiter ∉ toChar n := comma_not_mem_toChar n
  have hside (e : CompositeEnd) : delimiter ∉ nvl e.side := comma_not_mem_nvl e.side.2
  have hfiber : delimiter ∉ lit "FIBERLINK" := by decide
  have hcomposite : delimiter ∉ lit "COMPOSITELINK" := by decide
  have hinfo (a z : CompositeEnd) (n : Option Int) : ∀ field ∈ compositeInfo a z n,
      delimiter ∉ field := by
    simp [compositeInfo, hnumber, hside, hcomposite, a.ochDP.2, z.ochDP.2]
  cases c with
  | fiber a z =>
      simp [LinkCall.fields, fiberInfo, FiberEnd.fields, hnumber, hfiber, a.endSide.2, a.endAid.2,
        a.xcEndAid.2, z.endSide.2, z.endAid.2, z.xcEndAid.2]
  | composite fromEnd toEnd xcchanNum => exact hinfo fromEnd toEnd xcchanNum
  | oduComposite fromEnd toEnd xcchanNum => exact hinfo fromEnd toEnd xcchanNum

theorem fields_ne_nil (c : LinkCall) : c.fields ≠ [] := by
  cases c <;> simp [LinkCall.fields, fiberInfo, compositeInfo]

theorem text_eq_iff : c'.text = c.text ↔ c'.fields = c.fields :=
  intercalate_inj (delimiter_not_mem_fields c') (delimiter_not_mem_fields c) (fields_ne_nil c')
    (fields_ne_nil c)

theorem swap_swap : Function.Involutive LinkCall.swap := by
  intro c
  cases c <;> rfl

theorem fields_swap (h : c'.fields = c.fields) : c'.swap.fields = c.swap.fields := by
  cases c <;> cases c' <;>
    simp_all [LinkCall.fields, LinkCall.swap, fiberInfo, FiberEnd.fields, compositeInfo]

theorem text_swap (c c' : LinkCall) (h : c'.text = c.text) : c'.swap.text = c.swap.text :=
  text_eq_iff.mpr (fields_swap (text_eq_iff.mp h))

/-- Two slots are compared the same way in every order, unless they tie. -/
theorem numberLess_swap {slotFrom slotTo : Number}
    (h : ¬ (slotFrom = slotTo ∨ slotFrom = none ∨ slotTo = none)) :
    numberLess slotTo slotFrom = !numberLess slotFrom slotTo := by
  rw [not_or, not_or] at h
  obtain ⟨hne, hfrom, hto⟩ := h
  obtain ⟨p, rfl⟩ := Option.ne_none_iff_exists'.mp hfrom
  obtain ⟨q, rfl⟩ := Option.ne_none_iff_exists'.mp hto
  have hpq : p ≠ q := fun heq => hne (heq ▸ rfl)
  rw [numberLess, numberLess]
  rcases lt_or_gt_of_ne hpq with hlt | hlt
  · simp [hlt, not_lt_of_gt hlt]
  · simp [hlt, not_lt_of_gt hlt]

theorem numberLess_of_tied {slotFrom slotTo : Number}
    (h : slotFrom = slotTo ∨ slotFrom = none ∨ slotTo = none) :
    numberLess slotFrom slotTo = false ∧ numberLess slotTo slotFrom = false := by
  rcases h with rfl | rfl | rfl
  · cases slotFrom with
    | none => exact ⟨rfl, rfl⟩
    | some p => simp [numberLess]
  · cases slotTo <;> exact ⟨rfl, rfl⟩
  · cases slotFrom <;> exact ⟨rfl, rfl⟩

theorem comesFirst_of_tied (h : c.Tied) : c.comesFirst = false ∧ c.swap.comesFirst = false := by
  cases c with
  | fiber a z => exact h.elim
  | composite fromEnd toEnd xcchanNum => exact numberLess_of_tied h
  | oduComposite fromEnd toEnd xcchanNum => exact numberLess_of_tied h

/-- The two ends of a link that is not tied have an order. -/
theorem comesFirst_swap (hids : ∀ a z, c = .fiber a z → a.endId ≠ z.endId) (htied : ¬ c.Tied) :
    c.swap.comesFirst = !c.comesFirst := by
  cases c with
  | fiber a z =>
      have hne := hids a z rfl
      rw [LinkCall.swap, LinkCall.comesFirst, LinkCall.comesFirst, ← decide_not, decide_eq_decide]
      omega
  | composite fromEnd toEnd xcchanNum => exact numberLess_swap htied
  | oduComposite fromEnd toEnd xcchanNum => exact numberLess_swap htied

theorem SameIds.swap (h : SameIds c c') : SameIds c.swap c' := by
  have hmem (e : FiberEnd) (he : e ∈ c.swap.fiberEnds) : e ∈ c.fiberEnds := by
    cases c with
    | fiber a z => simpa [LinkCall.swap, LinkCall.fiberEnds, or_comm] using he
    | composite fromEnd toEnd xcchanNum => exact he
    | oduComposite fromEnd toEnd xcchanNum => exact he
  exact fun e he => h e (hmem e he)

theorem compositeInfo_slots {a z a' z' : CompositeEnd} {n n' : Option Int}
    (h : compositeInfo a' z' n' = compositeInfo a z n) : a'.slot = a.slot ∧ z'.slot = z.slot := by
  simp only [compositeInfo, List.cons.injEq] at h
  obtain ⟨-, -, ha, hz, -⟩ := h
  rw [CompositeEnd.slot, CompositeEnd.slot, CompositeEnd.slot, CompositeEnd.slot, ha, hz]
  exact ⟨rfl, rfl⟩

theorem fiberInfo_ne_compositeInfo {a z : FiberEnd} {a' z' : CompositeEnd} {n : Option Int} :
    fiberInfo a z ≠ compositeInfo a' z' n :=
  fun h => absurd (congrArg List.length h) (show 9 ≠ 8 by decide)

/-- Reports from the same end have the same order. -/
theorem comesFirst_of_fields (hids : SameIds c c') (h : c'.fields = c.fields) :
    c'.comesFirst = c.comesFirst := by
  have hslots {a z a' z' : CompositeEnd} {n n' : Option Int}
      (h : compositeInfo a' z' n' = compositeInfo a z n) :
      numberLess a'.slot z'.slot = numberLess a.slot z.slot := by
    rw [(compositeInfo_slots h).1, (compositeInfo_slots h).2]
  cases c with
  | fiber a z =>
      cases c' with
      | fiber a' z' =>
          have hends : a.fields = a'.fields ∧ z.fields = z'.fields := by
            simp_all [LinkCall.fields, fiberInfo, FiberEnd.fields]
          have ha := hids a (by simp [LinkCall.fiberEnds]) a' (by simp [LinkCall.fiberEnds]) hends.1
          have hz := hids z (by simp [LinkCall.fiberEnds]) z' (by simp [LinkCall.fiberEnds]) hends.2
          rw [LinkCall.comesFirst, LinkCall.comesFirst, ha, hz]
      | composite | oduComposite => exact absurd h.symm fiberInfo_ne_compositeInfo
  | composite fromEnd toEnd xcchanNum =>
      cases c' with
      | fiber => exact absurd h fiberInfo_ne_compositeInfo
      | composite | oduComposite => exact hslots h
  | oduComposite fromEnd toEnd xcchanNum =>
      cases c' with
      | fiber => exact absurd h fiberInfo_ne_compositeInfo
      | composite | oduComposite => exact hslots h

end

/-- **A link is listed once, from whichever end it is found**, exactly if no composite link whose
ends tie is reported from both of them. -/
theorem links_listedOnce_iff {calls : List LinkCall} {s s' : LinkDiscovery}
    (hstart : linkMachine.start s) (hcalls : linkMachine.exec calls s = some s')
    (hlinks : ReportLinks calls) :
    (∀ c ∈ calls, (c.entries s'.linkList).length = 1) ↔
      ∀ c ∈ calls, c.Tied → ∀ c' ∈ calls, c'.fields ≠ c.swap.fields := by
  have hlisted : Listed calls s' := by simpa using listed_exec (Listed.of_start hstart) hcalls
  refine (listedOnce_iff swap_swap text_swap hlisted.nodup hlisted.mem).trans ⟨?_, ?_⟩
  · intro hone c hc htied c' hc' hfields
    -- the two reports of a tied link have the two texts of it
    obtain ⟨hfirst, hswap⟩ := comesFirst_of_tied htied
    have hids : SameIds c.swap c' := SameIds.swap (hlinks.ids c hc c' hc')
    have hfirst' : c'.comesFirst = false := (comesFirst_of_fields hids hfields).trans hswap
    have htext : c'.swap.text = c.text := by
      rw [text_swap _ _ (text_eq_iff.mpr hfields), swap_swap c]
    have hentry := hone c hc c' hc' (.inr (text_eq_iff.mpr hfields))
    rw [normalText, normalText, hfirst, hfirst', htext] at hentry
    exact hlinks.distinct c hc (text_eq_iff.mp hentry)
  · intro hcond c hc c' hc' hpair
    have hids : SameIds c c' := hlinks.ids c hc c' hc'
    rcases hpair with hpair | hpair
    · have hfields := text_eq_iff.mp hpair
      rw [normalText, normalText, comesFirst_of_fields hids hfields, hpair, text_swap c c' hpair]
    · have hfields := text_eq_iff.mp hpair
      have htied : ¬ c.Tied := fun htied => hcond c hc htied c' hc' hfields
      have hfirst : c'.comesFirst = !c.comesFirst := by
        rw [comesFirst_of_fields hids.swap hfields,
          comesFirst_swap (fun a z heq => hlinks.fibers a z (heq ▸ hc)) htied]
      have hswap : c'.swap.text = c.text := by
        rw [text_swap _ _ hpair, swap_swap c]
      rw [normalText, normalText, hfirst, hpair, hswap]
      cases c.comesFirst <;> rfl

/-- An end of a composite link, and one of a fibre. -/
def compositeEnd (neId : Int) (ochDP : Field) : CompositeEnd := ⟨neId, ochDP, ⟨lit "A", by decide⟩⟩

def fiberEnd (neId : Int) (aid : Field) (id : Int) : FiberEnd :=
  ⟨neId, ⟨lit "7", by decide⟩, aid, aid, id, id⟩

/-- A composite link between two slots and a fibre, each found from both ends. -/
def foundTwice : List LinkCall :=
  let a := compositeEnd 1 ⟨lit "OCH-1-5-1", by decide⟩
  let z := compositeEnd 2 ⟨lit "OCH-1-12-1", by decide⟩
  let a' := fiberEnd 1 ⟨lit "OCH-P-1-5-1", by decide⟩ 31
  let z' := fiberEnd 2 ⟨lit "OCH-P-1-5-1", by decide⟩ 30
  [.composite a z none, .oduComposite z a (some 0), .fiber a' z', .fiber z' a']

theorem reportLinks_foundTwice : ReportLinks foundTwice where
  distinct := by decide +kernel
  fibers a z h := by
    simp only [foundTwice, List.mem_cons, reduceCtorEq, List.not_mem_nil, or_false, false_or,
      LinkCall.fiber.injEq] at h
    obtain ⟨rfl, rfl⟩ | ⟨rfl, rfl⟩ := h <;> decide
  ids := by
    unfold SameIds
    decide +kernel

theorem links_listedOnce_iff_foundTwice :
    ∃ s', linkMachine.exec foundTwice { lists := fun _ => some [] } = some s' ∧
      ∀ c ∈ foundTwice, (c.entries s'.linkList).length = 1 := by
  have hs' := Machine.eq_some_getD (o := linkMachine.exec foundTwice { lists := fun _ => some [] })
    (s := {}) (by decide +kernel)
  have htied : ∀ c ∈ foundTwice, ¬ c.Tied := by decide +kernel
  exact ⟨_, hs', (links_listedOnce_iff ⟨rfl, fun _ => rfl⟩ hs' reportLinks_foundTwice).mpr
    fun c hc h => absurd h (htied c hc)⟩

/-- The ends of a composite link are in slots with one number. -/
def foundInSameSlot : List LinkCall :=
  let a := compositeEnd 1 ⟨lit "OCH-1-5-1", by decide⟩
  let z := compositeEnd 2 ⟨lit "OCH-1-5-1", by decide⟩
  [.composite a z none, .composite z a none]

/-- The link is listed from both ends. -/
theorem links_listedTwice :
    linkMachine.start { lists := fun _ => some [] } ∧ ReportLinks foundInSameSlot ∧
      ∃ s', linkMachine.exec foundInSameSlot { lists := fun _ => some [] } = some s' ∧
        ∀ c ∈ foundInSameSlot, (c.entries s'.linkList).length = 2 := by
  refine ⟨⟨rfl, fun _ => rfl⟩, ⟨by decide +kernel, fun a z h => ?_, ?_⟩, _,
    Machine.eq_some_getD (s := {}) ?_, ?_⟩
  · simp [foundInSameSlot] at h
  · unfold SameIds
    decide +kernel
  · decide +kernel
  · decide +kernel

end Realwork.Circuit
