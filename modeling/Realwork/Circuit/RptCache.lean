import Mathlib.Logic.Function.Basic
import Realwork.Base.Str
import Realwork.Lib.Machine

/-!
# Circuit — the cache of circuits

`circuit_discovery.plsql`.  A discovery collects the resources of a circuit in the lists
`g_link_list` and so on, and those of the part between two OCHs also in the lists
`g_rpt_link_list` and so on; the arrays `g_link_array` and so on have what has been found so far.
`addRptCircuitCache` puts the second lists into the table `nm_circuit_cache`, and copies what the
row of the same ends has into them before it deletes that row.

* `Copies`: what the six copy loops have done.
* `mergedRow_iff`: when the new row has everything the old one had.
-/

namespace Realwork.Circuit

open Lib

/-! ### The variables of the package -/

inductive Kind where
  | links
  | connections
  | expresses
  | facilities
  | equipments
  | ffps
  deriving DecidableEq

/-- `V_B_TEXT` and `V_B_STRING`; `none` is NULL.  An element is not NULL, and not longer than a
key of `IDX_ARRAY`. -/
abbrev VB := Option (List Str)

/-- `IDX_ARRAY`: which keys it has. -/
abbrev IdxArray := Str → Bool

/-- A row of `nm_circuit_cache`; the empty direction is NULL. -/
structure CircuitRow where
  rowid : Nat
  circuitId : Nat
  reportId : Int
  startId : Int
  endId : Int
  direction : Str
  dontFindMeId : Option Int
  resources : Kind → VB
  minXLeft : Int
  maxXRight : Int
  minYTop : Int
  maxYBottom : Int
  initId : Option Int
  storePoint : Int

/-- The variables of the package that the procedures here use, and the table.  The coordinates
are in millionths. -/
structure Discovery where
  cache : List CircuitRow := []
  /-- The `rowid` of the next row. -/
  nextRowid : Nat := 0
  /-- `seq_nm_circuit_cache`. -/
  seqNmCircuitCache : Nat := 0
  cacheOchCircuit : Bool := false
  rptId : Int := -1
  rptInitId : Option Int := none
  rptStartCache : Int → Option Int := fun _ => none
  rptStartId : Int := -1
  rptEndId : Int := -1
  rptDirection : Str := []
  rptDontFindMeId : Option Int := none
  /-- `g_rpt_link_list`, `g_rpt_conn_List`, `g_rpt_exp_list`, `g_rpt_fac_List`,
  `g_rpt_eqpt_List` and `g_rpt_ffp_List`. -/
  rptLists : Kind → VB := fun _ => none
  /-- `g_link_list`, `g_conn_List`, `g_exp_link_list`, `g_fac_List`, `g_eqpt_List` and
  `g_ffp_List`. -/
  lists : Kind → VB := fun _ => none
  /-- `g_link_array`, `g_conn_array`, `g_exp_link_array`, `g_fac_array`, `g_eqpt_array` and
  `g_ffp_array`. -/
  arrays : Kind → IdxArray := fun _ _ => false
  rptFfpArray : IdxArray := fun _ => false
  minX : Int := 0
  maxX : Int := 0
  minY : Int := 0
  maxY : Int := 0

/-- `list.EXTEND; list(list.COUNT) := e`; `none` is `COLLECTION_IS_NULL`. -/
def extend (list : VB) (e : Str) : Option VB := list.map fun l => some (l ++ [e])

/-- The two lists of a kind. -/
inductive Into where
  | rpt
  | live
  deriving DecidableEq

namespace Discovery

/-- `e` is put at the end of a list. -/
def extendInto (into : Into) (kind : Kind) (e : Str) (s : Discovery) : Option Discovery :=
  match into with
  | .rpt => do
      let list ← extend (s.rptLists kind) e
      return { s with rptLists := Function.update s.rptLists kind list }
  | .live => do
      let list ← extend (s.lists kind) e
      return { s with lists := Function.update s.lists kind list }

/-- `array(e) := 'X'` -/
def mark (kind : Kind) (e : Str) (s : Discovery) : Discovery :=
  { s with arrays := Function.update s.arrays kind (Function.update (s.arrays kind) e true) }

/-! ### The lists -/

def clearRptCache (s : Discovery) : Discovery :=
  { s with
    cacheOchCircuit := false
    rptStartId := -1
    rptEndId := -1
    rptLists := fun _ => none
    rptFfpArray := fun _ => false }

def initRptGlobalVariable (startId : Int) (s : Discovery) : Discovery :=
  { s with
    cacheOchCircuit := true
    rptStartId := startId
    rptEndId := -1
    rptLists := fun _ => some [] }

def initGlobalVariable (s : Discovery) : Discovery :=
  { s with
    lists := fun _ => some []
    minX := 999000000
    maxX := -999000000
    minY := 999000000
    maxY := -999000000 }

/-- `e` is put into the list of the discovery and, if one is collected, that of the part. -/
def addToListX (kind : Kind) (addToRptCache : Bool) (e : Str) (s : Discovery) :
    Option Discovery := do
  let s ← s.extendInto .live kind e
  if s.cacheOchCircuit && addToRptCache then s.extendInto .rpt kind e else return s

def addLinkToListX (linkInfo : Str) (addToRptCache : Bool) : Discovery → Option Discovery :=
  addToListX .links addToRptCache linkInfo

def addExpLinkToListX (expsInfo : Str) : Discovery → Option Discovery :=
  addToListX .expresses true expsInfo

def addConnToListX (connInfo : Str) : Discovery → Option Discovery :=
  addToListX .connections true connInfo

/-- `addFFPToList` has a list and an array of its own for the part. -/
def addFFPToListX (ffpInfo : Str) : Discovery → Option Discovery :=
  addToListX .ffps false ffpInfo

/-- The array of the facilities is looked at here; for the other kinds the callers do it. -/
def addFacToListX (entityId : Str) (s : Discovery) : Option Discovery :=
  if s.arrays .facilities entityId then some s
  else addToListX .facilities true entityId (s.mark .facilities entityId)

def addEqptToListX (entityId : Str) : Discovery → Option Discovery :=
  addToListX .equipments true entityId

/-! ### `addRptCircuitCache` -/

/-- An iteration of a copy loop. -/
def copyNext (into : Into) (kind : Kind) (s : Discovery) (e : Str) : Option Discovery :=
  if s.arrays kind e then some s
  else do
    let s ← s.extendInto into kind e
    return s.mark kind e

/-- A copy loop; from a collection that is NULL or empty nothing is copied. -/
def copyLoop (into : Into) (kind : Kind) (row : CircuitRow) (s : Discovery) : Option Discovery :=
  ((row.resources kind).getD []).foldlM (copyNext into kind) s

def copyLinks : CircuitRow → Discovery → Option Discovery := copyLoop .rpt .links

def copyConnections : CircuitRow → Discovery → Option Discovery := copyLoop .rpt .connections

def copyExpresses : CircuitRow → Discovery → Option Discovery := copyLoop .rpt .expresses

/-- The loop extends `g_fac_List`. -/
def copyFacilities : CircuitRow → Discovery → Option Discovery := copyLoop .live .facilities

/-- The loop extends `g_eqpt_List`. -/
def copyEquipments : CircuitRow → Discovery → Option Discovery := copyLoop .live .equipments

def copyFfps : CircuitRow → Discovery → Option Discovery := copyLoop .rpt .ffps

/-- The body of the loop over the rows. -/
def copyRow (s : Discovery) (row : CircuitRow) : Option Discovery := do
  let s ← copyLinks row s
  let s ← copyConnections row s
  let s ← copyExpresses row s
  let s ← copyFacilities row s
  let s ← copyEquipments row s
  copyFfps row s

/-- The condition of the select; no row has a direction that is equal to NULL. -/
def Selects (s : Discovery) (row : CircuitRow) : Prop :=
  row.reportId = s.rptId ∧ row.startId = s.rptStartId ∧ row.endId = s.rptEndId ∧
    row.direction = s.rptDirection ∧ s.rptDirection ≠ []

instance (s : Discovery) (row : CircuitRow) : Decidable (s.Selects row) :=
  inferInstanceAs (Decidable (_ ∧ _ ∧ _ ∧ _ ∧ _))

/-- The rows of the select. -/
def selected (s : Discovery) : List CircuitRow := s.cache.filter fun row => s.Selects row

/-- The row of the insert. -/
def rptRow (storePoint : Int) (s : Discovery) : CircuitRow where
  rowid := s.nextRowid
  circuitId := s.seqNmCircuitCache
  reportId := s.rptId
  startId := s.rptStartId
  endId := s.rptEndId
  direction := s.rptDirection
  dontFindMeId := s.rptDontFindMeId
  resources := s.rptLists
  minXLeft := s.minX
  maxXRight := s.maxX
  minYTop := s.minY
  maxYBottom := s.maxY
  initId := s.rptInitId
  storePoint

/-- The row that was selected last is deleted. -/
def deleteSelected (rows : List CircuitRow) (s : Discovery) : Discovery :=
  match rows.getLast? with
  | some row => { s with cache := s.cache.filter fun r => r.rowid ≠ row.rowid }
  | none => s

def insertRow (storePoint : Int) (s : Discovery) : Discovery :=
  { s with
    cache := s.cache ++ [s.rptRow storePoint]
    nextRowid := s.nextRowid + 1
    seqNmCircuitCache := s.seqNmCircuitCache + 1 }

/-- The start of the part is noted with its end, unless it has been. -/
def noteStart (s : Discovery) : Discovery :=
  if (s.rptStartCache s.rptStartId).isSome then s
  else { s with rptStartCache := Function.update s.rptStartCache s.rptStartId (some s.rptEndId) }

/-- `addRptCircuitCache`; `none` is an exception. -/
def addRptCircuitCache (storePoint : Int) (s : Discovery) : Option Discovery := do
  let s := s.noteStart
  let connections ← s.rptLists .connections
  if connections.isEmpty then return s.clearRptCache
  else
    let rows := s.selected
    let s ← rows.foldlM copyRow s
    return ((s.deleteSelected rows).insertRow storePoint).clearRptCache

/-- The end of the part. -/
def endPart (endId : Int) (thisOchPosInNextXC : Str) (dontFindMeId : Option Int) (s : Discovery) :
    Discovery :=
  { s with
    rptEndId := endId
    cacheOchCircuit := false
    rptDontFindMeId := dontFindMeId
    rptDirection := thisOchPosInNextXC }

def processRptOchDrop (endId : Int) (thisOchPosInNextXC : Str) (dontFindMeId : Option Int)
    (storePoint : Int) (s : Discovery) : Option Discovery :=
  if s.cacheOchCircuit then
    addRptCircuitCache storePoint (s.endPart endId thisOchPosInNextXC dontFindMeId)
  else some s

end Discovery

/-! ### What the copy loops do -/

/-- The list the copy loop of a kind extends. -/
def Kind.into : Kind → Into
  | .facilities | .equipments => .live
  | _ => .rpt

namespace Discovery

/-- The elements of a list of the part. -/
def rptItems (s : Discovery) (kind : Kind) : List Str := (s.rptLists kind).getD []

/-- The lists of the part when a loop has put `e` at the end of its list. -/
def rptListsWith (into : Into) (kind : Kind) (e : Str) (s : Discovery) : Kind → VB :=
  match into with
  | .rpt => Function.update s.rptLists kind (some (s.rptItems kind ++ [e]))
  | .live => s.rptLists

/-- From `s` to `s'` the elements of `P` that are not in the arrays have been copied, each kind
into the list of its copy loop. -/
structure Copies (P : Kind → Str → Prop) (s s' : Discovery) : Prop where
  items : ∀ kind e, e ∈ s'.rptItems kind ↔
    e ∈ s.rptItems kind ∨ kind.into = .rpt ∧ P kind e ∧ s.arrays kind e = false
  arrays : ∀ kind e, s'.arrays kind e = true ↔ s.arrays kind e = true ∨ P kind e
  frame : s' = { s with rptLists := s'.rptLists, lists := s'.lists, arrays := s'.arrays }

section

variable {P Q : Kind → Str → Prop} {s s' s'' : Discovery} {kind : Kind} {e : Str}

theorem Copies.refl (hP : ∀ kind e, ¬ P kind e) : Copies P s s where
  items kind e := by simp [hP]
  arrays kind e := by simp [hP]
  frame := rfl

/-- What is copied later is not in the arrays of the first state either. -/
theorem Copies.trans (h : Copies P s s') (h' : Copies Q s' s'') :
    Copies (fun kind e => P kind e ∨ Q kind e) s s'' where
  items kind e := by
    -- the second step copies what neither the first state's array nor the first step has
    have harray : s'.arrays kind e = false ↔ s.arrays kind e = false ∧ ¬ P kind e := by
      rw [← Bool.not_eq_true, ← Bool.not_eq_true, h.arrays, not_or]
    rw [h'.items, h.items, harray]
    tauto
  arrays kind e := by
    rw [h'.arrays, h.arrays, or_assoc]
  frame := by
    rw [h'.frame, h.frame]

theorem Copies.congr (h : Copies P s s') (hPQ : ∀ kind e, P kind e ↔ Q kind e) : Copies Q s s' where
  items kind e := by rw [h.items, hPQ]
  arrays kind e := by rw [h.arrays, hPQ]
  frame := h.frame

theorem extend_eq_some {list list' : VB} (h : extend list e = some list') :
    list' = some (list.getD [] ++ [e]) := by
  cases list with
  | none => cases h
  | some l => exact (Option.some.inj h).symm

/-- The element of an iteration goes into the list of the loop. -/
theorem copyNext_cases {into : Into} (h : copyNext into kind s e = some s') :
    s.arrays kind e = true ∧ s' = s ∨
      s.arrays kind e = false ∧
        ∃ lists, s' = mark kind e { s with rptLists := s.rptListsWith into kind e, lists } := by
  unfold copyNext at h
  split at h
  · rename_i harray
    cases h
    exact .inl ⟨harray, rfl⟩
  · rename_i harray
    refine .inr ⟨by simpa using harray, ?_⟩
    obtain ⟨s₁, hs₁, h⟩ := Option.bind_eq_some_iff.mp h
    obtain rfl := Option.some.inj h
    cases into with
    | rpt =>
        obtain ⟨list, hlist, h⟩ := Option.bind_eq_some_iff.mp hs₁
        obtain rfl := Option.some.inj h
        rw [extend_eq_some hlist]
        exact ⟨s.lists, rfl⟩
    | live =>
        obtain ⟨list, -, h⟩ := Option.bind_eq_some_iff.mp hs₁
        obtain rfl := Option.some.inj h
        exact ⟨_, rfl⟩

theorem mark_arrays (k : Kind) (a : Str) :
    (mark kind e s).arrays k a = true ↔ s.arrays k a = true ∨ k = kind ∧ a = e := by
  by_cases hk : k = kind
  · subst hk
    by_cases ha : a = e
    · simp [mark, ha]
    · simp [mark, ha]
  · simp [mark, hk]

theorem mem_rptListsWith {into : Into} (k : Kind) (a : Str) :
    a ∈ (s.rptListsWith into kind e k).getD [] ↔
      a ∈ s.rptItems k ∨ into = .rpt ∧ k = kind ∧ a = e := by
  cases into with
  | live => simp [rptListsWith, rptItems]
  | rpt =>
      by_cases hk : k = kind
      · subst hk
        simp [rptListsWith]
      · simp [rptListsWith, rptItems, hk]

/-- **An iteration** copies its element. -/
theorem copyNext_copies (h : copyNext kind.into kind s e = some s') :
    Copies (fun k a => k = kind ∧ a = e) s s' := by
  obtain ⟨harray, rfl⟩ | ⟨harray, lists, rfl⟩ := copyNext_cases h
  · refine ⟨fun k a => ?_, fun k a => ?_, rfl⟩
    · refine ⟨.inl, fun ha => ha.resolve_right ?_⟩
      rintro ⟨-, ⟨rfl, rfl⟩, hfalse⟩
      rw [harray] at hfalse
      cases hfalse
    · refine ⟨.inl, fun ha => ha.elim id ?_⟩
      rintro ⟨rfl, rfl⟩
      exact harray
  · refine ⟨fun k a => (mem_rptListsWith k a).trans (or_congr_right ?_), mark_arrays, rfl⟩
    constructor
    · rintro ⟨hinto, rfl, rfl⟩
      exact ⟨hinto, ⟨rfl, rfl⟩, harray⟩
    · rintro ⟨hinto, ⟨rfl, rfl⟩, -⟩
      exact ⟨hinto, rfl, rfl⟩

/-- A loop of steps that each copy something. -/
theorem Copies.foldlM {β : Type} {f : Discovery → β → Option Discovery} {R : β → Kind → Str → Prop}
    (hf : ∀ b s s', f s b = some s' → Copies (R b) s s') {l : List β}
    (h : l.foldlM f s = some s') : Copies (fun kind e => ∃ b ∈ l, R b kind e) s s' := by
  induction l generalizing s with
  | nil =>
      cases h
      exact .refl (by simp)
  | cons b l ih =>
      rw [List.foldlM_cons] at h
      obtain ⟨s₁, hs₁, h⟩ := Option.bind_eq_some_iff.mp h
      exact ((hf b s s₁ hs₁).trans (ih h)).congr (by simp)

theorem copyLoop_copies (kind : Kind) {row : CircuitRow}
    (h : copyLoop kind.into kind row s = some s') :
    Copies (fun k a => k = kind ∧ a ∈ (row.resources kind).getD []) s s' := by
  refine (Copies.foldlM (fun e s s' h => copyNext_copies h) h).congr fun k a => ?_
  constructor
  · rintro ⟨b, hb, rfl, rfl⟩
    exact ⟨rfl, hb⟩
  · rintro ⟨rfl, ha⟩
    exact ⟨a, ha, rfl, rfl⟩

/-- **The six loops** copy every kind of the row. -/
theorem copyRow_copies {row : CircuitRow} (h : s.copyRow row = some s') :
    Copies (fun k a => a ∈ (row.resources k).getD []) s s' := by
  obtain ⟨s₁, h₁, h⟩ := Option.bind_eq_some_iff.mp h
  obtain ⟨s₂, h₂, h⟩ := Option.bind_eq_some_iff.mp h
  obtain ⟨s₃, h₃, h⟩ := Option.bind_eq_some_iff.mp h
  obtain ⟨s₄, h₄, h⟩ := Option.bind_eq_some_iff.mp h
  obtain ⟨s₅, h₅, h₆⟩ := Option.bind_eq_some_iff.mp h
  -- a loop looks at the array of its own kind only, so the order of the loops does not matter
  have hall := ((((Copies.trans (copyLoop_copies .links h₁)
    (copyLoop_copies .connections h₂)).trans
    (copyLoop_copies .expresses h₃)).trans
    (copyLoop_copies .facilities h₄)).trans
    (copyLoop_copies .equipments h₅)).trans (copyLoop_copies .ffps h₆)
  refine hall.congr fun k a => ?_
  cases k <;> simp

end

/-! ### The lists of a discovery -/

/-- No list is NULL. -/
structure Initialised (s : Discovery) : Prop where
  rptLists : ∀ kind, (s.rptLists kind).isSome
  lists : ∀ kind, (s.lists kind).isSome

section

variable {s : Discovery}

/-- A part starts with lists that are not NULL, since the discovery does. -/
theorem initRptGlobalVariable_initialised (startId : Int) (h : ∀ kind, (s.lists kind).isSome) :
    (s.initRptGlobalVariable startId).Initialised where
  rptLists _ := rfl
  lists := h

theorem isSome_update {lists : Kind → VB} (h : ∀ kind, (lists kind).isSome) (kind : Kind)
    (l : List Str) (k : Kind) : (Function.update lists kind (some l) k).isSome := by
  by_cases hk : k = kind
  · subst hk
    simp
  · rw [Function.update_of_ne hk]
    exact h k

/-- A list that is not NULL can be extended. -/
theorem Initialised.extendInto (h : s.Initialised) (into : Into) (kind : Kind) (e : Str) :
    ∃ s', s.extendInto into kind e = some s' ∧ s'.Initialised := by
  cases into with
  | rpt =>
      obtain ⟨l, hl⟩ := Option.isSome_iff_exists.mp (h.rptLists kind)
      refine ⟨{ s with rptLists := Function.update s.rptLists kind (some (l ++ [e])) }, ?_, ?_⟩
      · simp [Discovery.extendInto, extend, hl]
      · exact ⟨isSome_update h.rptLists kind _, h.lists⟩
  | live =>
      obtain ⟨l, hl⟩ := Option.isSome_iff_exists.mp (h.lists kind)
      refine ⟨{ s with lists := Function.update s.lists kind (some (l ++ [e])) }, ?_, ?_⟩
      · simp [Discovery.extendInto, extend, hl]
      · exact ⟨h.rptLists, isSome_update h.lists kind _⟩

theorem Initialised.addToListX (h : s.Initialised) (kind : Kind) (addToRptCache : Bool) (e : Str) :
    ∃ s', s.addToListX kind addToRptCache e = some s' ∧ s'.Initialised := by
  obtain ⟨s₁, hs₁, h₁⟩ := h.extendInto .live kind e
  simp only [Discovery.addToListX, hs₁, Option.bind_eq_bind, Option.bind_some]
  split
  · exact h₁.extendInto .rpt kind e
  · exact ⟨s₁, rfl, h₁⟩

theorem Initialised.copyNext (h : s.Initialised) (into : Into) (kind : Kind) (e : Str) :
    ∃ s', copyNext into kind s e = some s' ∧ s'.Initialised := by
  unfold Discovery.copyNext
  split
  · exact ⟨s, rfl, h⟩
  · obtain ⟨s₁, hs₁, h₁⟩ := h.extendInto into kind e
    exact ⟨s₁.mark kind e, by rw [hs₁]; rfl, h₁.rptLists, h₁.lists⟩

/-- A loop of steps that each return. -/
theorem Initialised.foldlM {β : Type} {f : Discovery → β → Option Discovery}
    (hf : ∀ b s, Initialised s → ∃ s', f s b = some s' ∧ s'.Initialised) (h : s.Initialised)
    (l : List β) : ∃ s', l.foldlM f s = some s' ∧ s'.Initialised := by
  induction l generalizing s with
  | nil => exact ⟨s, rfl, h⟩
  | cons b l ih =>
      obtain ⟨s₁, hs₁, h₁⟩ := hf b s h
      obtain ⟨s', hs', h'⟩ := ih h₁
      exact ⟨s', by rw [List.foldlM_cons, hs₁]; exact hs', h'⟩

theorem Initialised.copyLoop (h : s.Initialised) (into : Into) (kind : Kind) (row : CircuitRow) :
    ∃ s', copyLoop into kind row s = some s' ∧ s'.Initialised :=
  h.foldlM (fun e _ h => h.copyNext into kind e) _

theorem Initialised.copyRow (h : s.Initialised) (row : CircuitRow) :
    ∃ s', s.copyRow row = some s' ∧ s'.Initialised := by
  obtain ⟨s₁, hs₁, h₁⟩ := h.copyLoop .rpt .links row
  obtain ⟨s₂, hs₂, h₂⟩ := h₁.copyLoop .rpt .connections row
  obtain ⟨s₃, hs₃, h₃⟩ := h₂.copyLoop .rpt .expresses row
  obtain ⟨s₄, hs₄, h₄⟩ := h₃.copyLoop .live .facilities row
  obtain ⟨s₅, hs₅, h₅⟩ := h₄.copyLoop .live .equipments row
  obtain ⟨s₆, hs₆, h₆⟩ := h₅.copyLoop .rpt .ffps row
  refine ⟨s₆, ?_, h₆⟩
  simp only [Discovery.copyRow, copyLinks, copyConnections, copyExpresses, copyFacilities,
    copyEquipments, copyFfps, hs₁, hs₂, hs₃, hs₄, hs₅, hs₆, Option.bind_eq_bind, Option.bind_some]

end

end Discovery

/-! ### The row that is inserted -/

/-- The elements of a row. -/
def CircuitRow.items (row : CircuitRow) (kind : Kind) : List Str := (row.resources kind).getD []

namespace Discovery

/-- What of `old` is not copied into a list of the part, because it is copied into that of the
discovery or because the array has it, is in that list already. -/
def Covered (s : Discovery) (old : CircuitRow) (kind : Kind) : Prop :=
  ∀ e ∈ old.items kind, kind.into = .live ∨ s.arrays kind e = true → e ∈ s.rptItems kind

section

variable {s : Discovery}

theorem noteStart_frame : ∃ starts, s.noteStart = { s with rptStartCache := starts } := by
  unfold noteStart
  split
  · exact ⟨s.rptStartCache, rfl⟩
  · exact ⟨_, rfl⟩

/-- The rows of the select are copied one after the other. -/
theorem copyRows_copies {rows : List CircuitRow} {s' : Discovery}
    (h : rows.foldlM copyRow s = some s') :
    Copies (fun kind e => ∃ row ∈ rows, e ∈ row.items kind) s s' :=
  Copies.foldlM (fun _ _ _ h => copyRow_copies h) h

theorem Copies.cache_eq {P : Kind → Str → Prop} {s' : Discovery} (h : Copies P s s') :
    s'.cache = s.cache := by
  rw [h.frame]

theorem Copies.selects {P : Kind → Str → Prop} {s' : Discovery} (h : Copies P s s')
    (row : CircuitRow) : s'.Selects row ↔ s.Selects row := by
  rw [h.frame]
  rfl

/-- An element that was to be copied is in the list of the part, unless the loop had another list
or the array had it. -/
theorem Copies.mem_copied {P : Kind → Str → Prop} {s' : Discovery} {kind : Kind} {e : Str}
    (h : Copies P s s') (he : P kind e) :
    e ∈ s'.rptItems kind ↔
      (kind.into = .live ∨ s.arrays kind e = true → e ∈ s.rptItems kind) := by
  have hinto : kind.into = .rpt ↔ ¬ kind.into = .live := by
    cases kind <;> decide
  rw [h.items, hinto, ← Bool.not_eq_true]
  tauto

/-- With a connection in the part, the rows of the select are copied and a row is inserted. -/
theorem addRptCircuitCache_merges (storePoint : Int) (hinit : s.Initialised)
    (hconn : s.rptItems .connections ≠ []) :
    ∃ starts s₁, s.selected.foldlM copyRow { s with rptStartCache := starts } = some s₁ ∧
      addRptCircuitCache storePoint s =
        some ((s₁.deleteSelected s.selected).insertRow storePoint).clearRptCache := by
  obtain ⟨starts, hstarts⟩ := noteStart_frame (s := s)
  have hnoted : Initialised { s with rptStartCache := starts } := ⟨hinit.rptLists, hinit.lists⟩
  obtain ⟨s₁, hs₁, -⟩ := hnoted.foldlM (fun row _ h => h.copyRow row) s.selected
  refine ⟨starts, s₁, hs₁, ?_⟩
  obtain ⟨connections, hconnections⟩ := Option.isSome_iff_exists.mp (hinit.rptLists .connections)
  have hsome : connections.isEmpty = false := by
    simpa [rptItems, hconnections] using hconn
  have hsel : selected { s with rptStartCache := starts } = s.selected := rfl
  simp only [addRptCircuitCache, hstarts, hconnections, hsel, hs₁, hsome, Option.bind_eq_bind,
    Option.bind_some, Bool.false_eq_true, if_false]
  rfl

/-- **The merge.**  The new row has what the part collected; it has everything the old one had
exactly when what the loops do not put into the lists of the part is there already. -/
theorem mergedRow_iff {old : CircuitRow} (storePoint : Int) (hinit : s.Initialised)
    (hconn : s.rptItems .connections ≠ []) (hold : old ∈ s.cache) (hkey : s.Selects old) :
    ∃ s' gone new, addRptCircuitCache storePoint s = some s' ∧ gone ∈ s.selected ∧
      s'.cache = s.cache.filter (fun row => row.rowid ≠ gone.rowid) ++ [new] ∧ s.Selects new ∧
      ((∀ kind, (∀ e ∈ old.items kind, e ∈ new.items kind) ∧
        ∀ e ∈ s.rptItems kind, e ∈ new.items kind) ↔ ∀ kind, s.Covered old kind) := by
  obtain ⟨starts, s₁, hs₁, hadd⟩ := addRptCircuitCache_merges storePoint hinit hconn
  have hcopies := copyRows_copies hs₁
  have hmem : old ∈ s.selected := List.mem_filter.mpr ⟨hold, decide_eq_true hkey⟩
  have hne : s.selected ≠ [] := List.ne_nil_of_mem hmem
  have hgone := List.getLast?_eq_some_getLast hne
  -- `v_selected_row` is the row the loop saw last
  refine ⟨_, s.selected.getLast hne, s₁.rptRow storePoint, hadd, List.getLast_mem hne, ?_, ?_, ?_⟩
  · have hcache : s₁.cache = s.cache := hcopies.cache_eq
    simp only [clearRptCache, insertRow, deleteSelected, hgone, hcache]
    rfl
  · exact (hcopies.selects _).mp ⟨rfl, rfl, rfl, rfl, (hcopies.selects old).mpr hkey |>.2.2.2.2⟩
  · refine forall_congr' fun kind => ?_
    calc ((∀ e ∈ old.items kind, e ∈ s₁.rptItems kind) ∧
          ∀ e ∈ s.rptItems kind, e ∈ s₁.rptItems kind)
        ↔ ∀ e ∈ old.items kind, e ∈ s₁.rptItems kind :=
          and_iff_left fun e he => (hcopies.items kind e).mpr (.inl he)
      _ ↔ s.Covered old kind :=
          forall₂_congr fun e he => hcopies.mem_copied ⟨old, hmem, he⟩

end

/-- A part from `10` on, with a connection and facilities. -/
def part (connInfo : Str) (entityIds : List Str) (s : Discovery) : Option Discovery := do
  let s ← addConnToListX connInfo (s.initRptGlobalVariable 10)
  entityIds.foldlM (fun s entityId => s.addFacToListX entityId) s

/-- A discovery comes from `10` to `20` twice, and the second part is not in the table yet. -/
def foundAgain (entityIds : List Str) : Option Discovery := do
  let s ← part (lit "1-2") entityIds (initGlobalVariable { rptId := 1 })
  let s ← s.processRptOchDrop 20 (lit "TX") none 0
  let s ← s.part (lit "2-3") entityIds
  return s.endPart 20 (lit "TX") none

/-- Without facilities nothing is lost. -/
theorem mergedRow_iff_again :
    ∃ s old s', ∃ gone new : CircuitRow, foundAgain [] = some s ∧ old ∈ s.cache ∧ s.Selects old ∧
      addRptCircuitCache 0 s = some s' ∧
      s'.cache = s.cache.filter (fun row => row.rowid ≠ gone.rowid) ++ [new] ∧
      ∀ kind, (∀ e ∈ old.items kind, e ∈ new.items kind) ∧
        ∀ e ∈ s.rptItems kind, e ∈ new.items kind := by
  let s : Discovery := (foundAgain []).getD {}
  have hs : foundAgain [] = some s := Machine.eq_some_getD (by decide +kernel)
  obtain ⟨old, hold, hkey, hfree⟩ : ∃ old ∈ s.cache, s.Selects old ∧
      ∀ kind, ∀ e ∈ old.items kind, kind.into = .rpt ∧ s.arrays kind e = false := by
    refine ⟨s.cache.head (by decide +kernel), List.head_mem _, by decide +kernel, fun kind => ?_⟩
    cases kind <;> decide +kernel
  have hinit : s.Initialised :=
    ⟨fun kind => by cases kind <;> rfl, fun kind => by cases kind <;> rfl⟩
  obtain ⟨s', gone, new, hadd, -, hcache, -, hiff⟩ :=
    mergedRow_iff 0 hinit (by decide +kernel) hold hkey
  refine ⟨s, old, s', gone, new, hs, hold, hkey, hadd, hcache, hiff.mpr fun kind e he hlost => ?_⟩
  obtain ⟨hinto, harray⟩ := hfree kind e he
  simp [hinto, harray] at hlost

/-- The facility of the first part is known to the discovery when it comes to the second one: the
row that replaces the first does not have it. -/
theorem mergedRow_loses :
    ∃ s s', foundAgain [lit "7"] = some s ∧ s.rptItems .connections ≠ [] ∧
      addRptCircuitCache 0 s = some s' ∧
      (∃ old ∈ s.cache, s.Selects old ∧ lit "7" ∈ old.items .facilities) ∧
      ∀ new ∈ s'.cache, lit "7" ∉ new.items .facilities := by
  let s : Discovery := (foundAgain [lit "7"]).getD {}
  let s' : Discovery := (addRptCircuitCache 0 s).getD {}
  have hs : foundAgain [lit "7"] = some s := Machine.eq_some_getD (by decide +kernel)
  have hs' : addRptCircuitCache 0 s = some s' := Machine.eq_some_getD (by decide +kernel)
  exact ⟨s, s', hs, by decide +kernel, hs', by decide +kernel, by decide +kernel⟩

end Discovery

end Realwork.Circuit
