import Realwork.Circuit.CircuitCache
import Realwork.Lib.Frame

/-!
# Circuit — the circuits of a protection switch

`discoverProtectionSwitch` of `circuit_discovery.plsql`.  For a 1+1 switch it discovers the circuit
of the working transponder and then that of the protecting one, and puts the lists of the second
behind those of the first.  Each discovery starts with empty lists, but the arrays of what has been
reported are those of the session.

* `unseen_run`: a discovery does not look at what is in the lists, nor at its box.
* `discoverProtectionSwitch_merged`: the merged lists are those of one discovery of both circuits,
  but the box is that of the second one.
-/

namespace Realwork.Circuit

open Lib

/-! ### The procedures -/

/-- `g_min_x`, `g_max_x`, `g_min_y` and `g_max_y`. -/
structure Box where
  minX : Int
  maxX : Int
  minY : Int
  maxY : Int

/-- The box around both. -/
def Box.join (b b' : Box) : Box where
  minX := min b.minX b'.minX
  maxX := max b.maxX b'.maxX
  minY := min b.minY b'.minY
  maxY := max b.maxY b'.maxY

/-- The rows of the select for an OPSM of a ring. -/
structure OpsmRow where
  neId : Str
  channel : Str
  side : Str

/-- A row of the select for the cross connect of such an OPSM. -/
structure OchRow where
  ochFromId : Str
  ochToId : Str
  ochFromAid : Str
  ochToAid : Str

/-- A row of the select for a 1+1 OPSM. -/
structure OnePlusOneRow where
  ochFromIdw : Str
  ochToIdw : Str
  ochFromIdp : Str
  ochToIdp : Str
  facFromId : Str
  facToId : Str

/-- What the procedures select; `none` where there is no row, and an empty text is NULL. -/
structure SwitchTables extends Tables where
  /-- The coordinates of a NE by its TID; one of them may be NULL. -/
  coordByTid : Str → Option (Option Int × Option Int)
  coordByClli : Str → Option (Option Int × Option Int)
  /-- `system_config` has `CircuitCache`. -/
  circuitCache : Bool
  opsm : Str → Option OpsmRow
  och : OpsmRow → Option OchRow
  onePlusOne : Str → Option OnePlusOneRow
  /-- `OCH_PARENT_ID` -/
  ochParentId : Str → Str → Option Str
  /-- `FAC_PARENT_ID` -/
  facParentId : Str → Option Str

/-- What a discovery without a report does in the package. -/
inductive Step where
  | found (f : Found)
  /-- `g_cache_och_circuit := FALSE` -/
  | noReport
  | bounds (neId : Str)

/-- What a discovery finds from an equipment. -/
structure Walk where
  steps : List Step
  wavelength : Str
  signalRate : Str

/-- What a discovery returns; the box is NULL where nothing has been discovered. -/
structure Circuits where
  lists : Kind → List Str := fun _ => []
  box : Option Box := none
  wavelength : Str := []
  signalRate : Str := []

namespace Discovery

def box (s : Discovery) : Box where
  minX := s.minX
  maxX := s.maxX
  minY := s.minY
  maxY := s.maxY

/-! The four `IF`s of `updateCircuitBounds`.  A coordinate that is NULL is 999 or -999; no bound is
beyond that, so that it is not set to NULL. -/

def lowerMinX (x_coord : Option Int) (s : Discovery) : Discovery :=
  if x_coord.getD 999000000 < s.minX then { s with minX := x_coord.getD 999000000 } else s

def raiseMaxX (x_coord : Option Int) (s : Discovery) : Discovery :=
  if x_coord.getD (-999000000) > s.maxX then { s with maxX := x_coord.getD (-999000000) } else s

def lowerMinY (y_coord : Option Int) (s : Discovery) : Discovery :=
  if y_coord.getD 999000000 < s.minY then { s with minY := y_coord.getD 999000000 } else s

def raiseMaxY (y_coord : Option Int) (s : Discovery) : Discovery :=
  if y_coord.getD (-999000000) > s.maxY then { s with maxY := y_coord.getD (-999000000) } else s

def updateCircuitBounds (t : SwitchTables) (neId : Str) (s : Discovery) : Discovery :=
  match (t.coordByTid neId).or (t.coordByClli neId) with
  | none => s
  | some (x_coord, y_coord) =>
      (((s.lowerMinX x_coord).raiseMaxX x_coord).lowerMinY y_coord).raiseMaxY y_coord

def step (t : SwitchTables) : Step → Discovery → Option Discovery
  | .found f, s => s.add t.toTables f
  | .noReport, s => some { s with cacheOchCircuit := false }
  | .bounds neId, s => some (s.updateCircuitBounds t neId)

def run (t : SwitchTables) (steps : List Step) (s : Discovery) : Option Discovery :=
  steps.foldlM (fun s a => s.step t a) s

/-- Where `discoverEquipment` starts, with the default of `reportId`. -/
def startEquipment (t : SwitchTables) (s : Discovery) : Discovery :=
  s.discover false (if t.circuitCache then -1 else s.rptId)

/-- `discoverEquipment` for an OCH; what it finds depends on the state it starts from. -/
def discoverEquipment (t : SwitchTables) (walk : Str → Discovery → Walk) (id : Str)
    (s : Discovery) : Option (Discovery × Circuits) := do
  let s := s.startEquipment t
  let w := walk id s
  let s ← s.run t w.steps
  return (s, {
    lists := s.items
    box := some s.box
    wavelength := w.wavelength
    signalRate := w.signalRate })

/-- The other end of a cross connect. -/
def otherEnd (facId fromId toId : Str) : Str :=
  if facId = fromId then toId else if facId = toId then fromId else []

/-- `LIKE 'OCH-P%'`, `LIKE 'OCH-CP%'` or `LIKE 'OCH-1%'` -/
def isOchp (aid : Str) : Bool :=
  (lit "OCH-P").isPrefixOf aid || (lit "OCH-CP").isPrefixOf aid || (lit "OCH-1").isPrefixOf aid

/-- `wavelength<>wavelengthX` is not true of NULL, so that the second `IF` is always true. -/
def combine (wavelength wavelengthX : Str) : Str :=
  if wavelength ≠ [] ∧ wavelengthX ≠ [] ∧ wavelength ≠ wavelengthX then
    if wavelength ≠ [] then wavelength ++ lit "/" ++ wavelengthX else wavelengthX
  else wavelength

/-- The equipment of the ring's OCH-P. -/
def ochpEquipmentId (t : SwitchTables) (row : OpsmRow) (och : OchRow) : Str :=
  let ochpId := if isOchp och.ochFromAid then och.ochFromId
    else if isOchp och.ochToAid then och.ochToId else []
  (t.ochParentId row.neId ochpId).getD []

/-- The working equipment of a 1+1 switch. -/
def equipmentIdw (t : SwitchTables) (row : OnePlusOneRow) : Str :=
  (t.facParentId (otherEnd row.facFromId row.ochFromIdw row.ochToIdw)).getD []

/-- The protecting one; without a row the variable keeps the working one. -/
def equipmentIdp (t : SwitchTables) (row : OnePlusOneRow) : Str :=
  (t.facParentId (otherEnd row.facToId row.ochFromIdp row.ochToIdp)).getD (equipmentIdw t row)

/-- `discoverProtectionSwitch`; `none` is an exception. -/
def discoverProtectionSwitch (t : SwitchTables) (walk : Str → Discovery → Walk) (id : Str)
    (s : Discovery) : Option (Discovery × Circuits) :=
  let s := s.initGlobalVariable
  match t.opsm id with
  | some row =>
      match t.och row with
      | some och => s.discoverEquipment t walk (ochpEquipmentId t row och)
      | none => some (s, {})
  | none =>
      match t.onePlusOne id with
      | none => some (s, {})
      | some row => do
          let (s, c) ← s.discoverEquipment t walk (equipmentIdw t row)
          let (s, cX) ← s.discoverEquipment t walk (equipmentIdp t row)
          return (s, {
            lists := fun kind => c.lists kind ++ cX.lists kind
            box := cX.box
            wavelength := combine c.wavelength cX.wavelength
            signalRate := combine c.signalRate cX.signalRate })

/-! ### What a discovery does not look at -/

/-- `s`, had there been `pre` in the lists before and had the box been around `b` too. -/
def joined (pre : Kind → List Str) (b : Box) (s : Discovery) : Discovery :=
  { s with
    lists := fun kind => (s.lists kind).map (pre kind ++ ·)
    minX := min b.minX s.minX
    maxX := max b.maxX s.maxX
    minY := min b.minY s.minY
    maxY := max b.maxY s.maxY }

section

variable {pre : Kind → List Str} {b : Box} {t : SwitchTables} {s : Discovery}

theorem unseen_mark (kind : Kind) (e : Str) :
    Unseen (joined pre b) fun s => some (s.mark kind e) :=
  .some fun _ => rfl

theorem unseen_extendInto (into : Into) (kind : Kind) (e : Str) :
    Unseen (joined pre b) (extendInto into kind e) := by
  intro s
  cases into with
  | rpt =>
      simp only [extendInto, joined, extend]
      cases s.rptLists kind with
      | none => rfl
      | some l => rfl
  | live =>
      simp only [extendInto, joined, extend]
      cases hl : s.lists kind with
      | none => rfl
      | some l =>
          -- what is put behind comes behind `pre`, and the other lists are left alone
          have hlists : Function.update (fun k => (s.lists k).map (pre k ++ ·)) kind
              (some (pre kind ++ l ++ [e])) =
              fun k => (Function.update s.lists kind (some (l ++ [e])) k).map (pre k ++ ·) := by
            funext k
            by_cases hk : k = kind
            · subst hk
              simp
            · simp [hk]
          exact congrArg (fun lists => some { (joined pre b s) with lists }) hlists

theorem unseen_addToListX (kind : Kind) (addToRptCache : Bool) (e : Str) :
    Unseen (joined pre b) (addToListX kind addToRptCache e) :=
  (unseen_extendInto .live kind e).bind
    (.ite (fun _ => Iff.rfl) (unseen_extendInto .rpt kind e) (.some fun _ => rfl))

theorem unseen_addToList (kind : Kind) (addToRptCache : Bool) (e : Str) :
    Unseen (joined pre b) (addToList kind addToRptCache e) :=
  .ite (fun _ => Iff.rfl) (.some fun _ => rfl)
    ((unseen_mark kind e).bind (unseen_addToListX kind addToRptCache e))

theorem unseen_addFacilityToList (u : Tables) (entityId : Str) :
    Unseen (joined pre b) (addFacilityToList u entityId) := by
  refine .ite (fun _ => Iff.rfl) (.some fun _ => rfl) (Unseen.bind ?_ ?_)
  · exact .foldlM (fun id => unseen_addToList .facilities true id) _
  · exact .some fun s => by
      split
      · rfl
      · rfl

theorem unseen_addEquipmentToListX (u : Tables) (entityId : Str) :
    Unseen (joined pre b) (addEquipmentToListX u entityId) := by
  intro s
  rw [addEquipmentToListX, addEquipmentToListX]
  cases u.card entityId with
  | none => rfl
  | some facIds =>
      exact Unseen.bind (.foldlM (fun facId => unseen_addFacilityToList u facId) facIds)
        (unseen_addToListX .equipments true entityId) s

theorem unseen_addEquipmentToList (u : Tables) (entityId : Str) :
    Unseen (joined pre b) (addEquipmentToList u entityId) :=
  .ite (fun _ => Iff.rfl) (.some fun _ => rfl)
    ((unseen_mark .equipments entityId).bind (unseen_addEquipmentToListX u entityId))

theorem unseen_addFfpToRptList (v_ffpInfo : Str) :
    Unseen (joined pre b) (addFfpToRptList v_ffpInfo) := by
  refine .ite (fun _ => Iff.rfl) ?_ (.some fun _ => rfl)
  have hmark : Unseen (joined pre b) fun s =>
      some { s with rptFfpArray := Function.update s.rptFfpArray v_ffpInfo true } :=
    .some fun _ => rfl
  exact hmark.bind (unseen_extendInto .rpt .ffps v_ffpInfo)

theorem unseen_addFFPToList (u : Tables) (neId fromFacilityId toFacilityId : Str) :
    Unseen (joined pre b) (addFFPToList u neId fromFacilityId toFacilityId) := by
  refine .ite (fun _ => Iff.rfl) (.some fun _ => rfl)
    (Unseen.bind (.ite (fun _ => Iff.rfl) (.some fun _ => rfl) ?_) (unseen_addFfpToRptList _))
  exact ((unseen_mark .ffps _).bind (unseen_addToListX .ffps false _)).bind
    ((unseen_addFacilityToList u fromFacilityId).bind (unseen_addFacilityToList u toFacilityId))

/-- **A report** does not look at what is in the lists. -/
theorem unseen_add (u : Tables) (f : Found) : Unseen (joined pre b) (add u f) := by
  cases f with
  | link ends type => exact unseen_addToList .links type.addToRptCache (ends ++ type.text)
  | conn xcInfo => exact unseen_addToList .connections true xcInfo
  | expLink expsInfo => exact unseen_addToList .expresses true expsInfo
  | fac entityId => exact unseen_addToList .facilities true entityId
  | facility entityId => exact unseen_addFacilityToList u entityId
  | equipment entityId => exact unseen_addEquipmentToList u entityId
  | ffp neId fromFacilityId toFacilityId =>
      exact unseen_addFFPToList u neId fromFacilityId toFacilityId

/-! A coordinate that is beyond a bound moves it. -/

theorem lowerMinX_eq (x : Option Int) :
    s.lowerMinX x = { s with minX := min (x.getD 999000000) s.minX } := by
  rw [lowerMinX]
  split
  · rename_i h
    rw [min_eq_left h.le]
  · rename_i h
    rw [min_eq_right (not_lt.mp h)]

theorem raiseMaxX_eq (x : Option Int) :
    s.raiseMaxX x = { s with maxX := max (x.getD (-999000000)) s.maxX } := by
  rw [raiseMaxX]
  split
  · rename_i h
    rw [max_eq_left (le_of_lt h)]
  · rename_i h
    rw [max_eq_right (not_lt.mp h)]

theorem lowerMinY_eq (y : Option Int) :
    s.lowerMinY y = { s with minY := min (y.getD 999000000) s.minY } := by
  rw [lowerMinY]
  split
  · rename_i h
    rw [min_eq_left h.le]
  · rename_i h
    rw [min_eq_right (not_lt.mp h)]

theorem raiseMaxY_eq (y : Option Int) :
    s.raiseMaxY y = { s with maxY := max (y.getD (-999000000)) s.maxY } := by
  rw [raiseMaxY]
  split
  · rename_i h
    rw [max_eq_left (le_of_lt h)]
  · rename_i h
    rw [max_eq_right (not_lt.mp h)]

theorem unseen_updateCircuitBounds (neId : Str) :
    Unseen (joined pre b) fun s => some (s.updateCircuitBounds t neId) := by
  refine .some fun s => ?_
  rw [updateCircuitBounds, updateCircuitBounds]
  cases (t.coordByTid neId).or (t.coordByClli neId) with
  | none => rfl
  | some c =>
      simp only [lowerMinX_eq, raiseMaxX_eq, lowerMinY_eq, raiseMaxY_eq, joined]
      rw [min_left_comm b.minX, max_left_comm b.maxX, min_left_comm b.minY, max_left_comm b.maxY]

theorem unseen_step (a : Step) : Unseen (joined pre b) (step t a) := by
  cases a with
  | found f => exact unseen_add t.toTables f
  | noReport => exact .some fun _ => rfl
  | bounds neId => exact unseen_updateCircuitBounds neId

/-- **A discovery** does not look at what is in the lists, nor at its box. -/
theorem unseen_run (steps : List Step) : Unseen (joined pre b) (run t steps) :=
  .foldlM (fun a => unseen_step a) steps

/-! ### One discovery after another -/

theorem Inv.updateCircuitBounds (h : s.Inv) (neId : Str) :
    (s.updateCircuitBounds t neId).Inv ∧ (s.updateCircuitBounds t neId).rptId = s.rptId := by
  rw [Discovery.updateCircuitBounds]
  cases (t.coordByTid neId).or (t.coordByClli neId) with
  | none => exact ⟨h, rfl⟩
  | some c =>
      simp only [lowerMinX_eq, raiseMaxX_eq, lowerMinY_eq, raiseMaxY_eq]
      exact ⟨⟨⟨h.items, h.rptItems⟩, ⟨h.lists, h.rptLists⟩, h.rptFfps, h.rptEndId, h.cache⟩,
        trivial⟩

/-- A step returns, and keeps the invariant of the session. -/
theorem Inv.step (h : s.Inv) (t : SwitchTables) (a : Step) :
    ∃ s', s.step t a = some s' ∧ s'.Inv ∧ s'.rptId = s.rptId := by
  cases a with
  | found f =>
      obtain ⟨s', new, rptFfps, hs', hgrows, -⟩ := adds_add (t := t.toTables) h.toReady f
      have hrptId := congrArg Discovery.rptId hgrows.others
      exact ⟨s', hs', h.grows hgrows, hrptId⟩
  | noReport =>
      exact ⟨_, rfl,
        ⟨⟨h.items, h.rptItems⟩, ⟨h.lists, nofun⟩, h.rptFfps, h.rptEndId, h.cache⟩, rfl⟩
  | bounds neId => exact ⟨_, rfl, h.updateCircuitBounds neId⟩

/-- **A discovery** returns, and keeps the invariant of the session. -/
theorem Inv.run (h : s.Inv) (t : SwitchTables) (steps : List Step) :
    ∃ s', s.run t steps = some s' ∧ s'.Inv ∧ s'.rptId = s.rptId := by
  induction steps generalizing s with
  | nil => exact ⟨s, rfl, h, rfl⟩
  | cons a steps ih =>
      obtain ⟨s₁, hs₁, hinv₁, hrptId₁⟩ := h.step t a
      obtain ⟨s', hs', hinv', hrptId'⟩ := ih hinv₁
      refine ⟨s', ?_, hinv', hrptId'.trans hrptId₁⟩
      rw [Discovery.run, List.foldlM_cons, hs₁]
      exact hs'

/-- The box of a discovery that has not found a NE. -/
def noBox : Box where
  minX := 999000000
  maxX := -999000000
  minY := 999000000
  maxY := -999000000

/-- A discovery starts with `noBox`, and never forgets it. -/
theorem run_noBox {s' : Discovery} {steps : List Step} (reportId : Int)
    (hrun : (s.discover false reportId).run t steps = some s') : noBox.join s'.box = s'.box := by
  have hstart : joined (fun _ => []) noBox (s.discover false reportId) =
      s.discover false reportId := by
    simp [joined, noBox, discover, initGlobalVariable]
  have hsame : run t steps (joined (fun _ => []) noBox (s.discover false reportId)) =
      (run t steps (s.discover false reportId)).map (joined (fun _ => []) noBox) :=
    unseen_run steps _
  rw [hstart, hrun] at hsame
  have hbox := congrArg Discovery.box (Option.some.inj hsame)
  exact hbox.symm

/-- Behind a discovery, a new one of the same report starts from empty lists and `noBox`. -/
theorem joined_discover {s₁ : Discovery} {reportId : Int} (hinv : s₁.Inv)
    (hrptId : s₁.rptId = reportId) (hbox : noBox.join s₁.box = s₁.box) :
    joined s₁.items s₁.box (s₁.discover false reportId) = s₁ := by
  have hlists : (fun kind => (some [] : VB).map (s₁.items kind ++ ·)) = s₁.lists := by
    funext kind
    obtain ⟨l, hl⟩ := Option.isSome_iff_exists.mp (hinv.lists kind)
    simp [items, hl]
  have hback : s₁.box.join noBox = s₁.box := by
    simp only [Box.join, min_comm, max_comm] at hbox ⊢
    exact hbox
  subst hrptId
  have hjoined : joined s₁.items s₁.box (s₁.discover false s₁.rptId) = { s₁ with
      lists := fun kind => (some [] : VB).map (s₁.items kind ++ ·)
      minX := (s₁.box.join noBox).minX
      maxX := (s₁.box.join noBox).maxX
      minY := (s₁.box.join noBox).minY
      maxY := (s₁.box.join noBox).maxY } := rfl
  rw [hjoined, hlists, hback]
  rfl

/-- **Two discoveries**, one after the other, do what one discovery of both does, but for the lists
and the box. -/
theorem run_startEquipment {s₁ s₂ : Discovery} {steps steps' : List Step} (hs : s.Inv)
    (h₁ : (s.startEquipment t).run t steps = some s₁)
    (h₂ : (s₁.startEquipment t).run t steps' = some s₂) :
    (s.startEquipment t).run t (steps ++ steps') = some (joined s₁.items s₁.box s₂) := by
  obtain ⟨s', hs', hinv, hrptId⟩ := (hs.discover false _).run t steps
  obtain rfl := Option.some.inj (h₁.symm.trans hs')
  -- the second one has the report of the first
  have hreport : (if t.circuitCache then -1 else s₁.rptId) = s₁.rptId := by
    split
    · rename_i hcache
      rw [hrptId]
      exact (if_pos hcache).symm
    · rfl
  have hlater : run t steps' (joined s₁.items s₁.box (s₁.startEquipment t)) =
      (run t steps' (s₁.startEquipment t)).map (joined s₁.items s₁.box) :=
    unseen_run steps' _
  rw [h₂, startEquipment, joined_discover hinv hreport.symm (run_noBox _ h₁)] at hlater
  have happend : (s.startEquipment t).run t (steps ++ steps') =
      ((s.startEquipment t).run t steps).bind (run t steps') := List.foldlM_append
  rw [happend, h₁]
  exact hlater

theorem combine_eq_nil {v vX : Str} : combine v vX = [] ↔ v = [] := by
  rw [combine]
  split
  · rename_i h
    simp [h.1]
  · exact Iff.rfl

/-- **The circuits of a 1+1 switch.**  The merged lists are those of one discovery that finds what
both of them find, in this order, and have nothing twice.  The box is that of the protecting
circuit only, where one discovery would have the box around both; and the wavelength of the
protecting circuit is not returned if the working one has none. -/
theorem discoverProtectionSwitch_merged (t : SwitchTables) (walk : Str → Discovery → Walk)
    (id : Str) {row : OnePlusOneRow} {s : Discovery}
    (h : (package t.toTables).Reach Machine.always s) (hopsm : t.opsm id = none)
    (hrow : t.onePlusOne id = some row) :
    ∃ (w w' : Walk) (s₁ s₂ both : Discovery) (c : Circuits),
      s.discoverProtectionSwitch t walk id = some (s₂, c) ∧
      w = walk (equipmentIdw t row) (s.startEquipment t) ∧
      (s.startEquipment t).run t w.steps = some s₁ ∧
      w' = walk (equipmentIdp t row) (s₁.startEquipment t) ∧
      (s₁.startEquipment t).run t w'.steps = some s₂ ∧
      (s.startEquipment t).run t (w.steps ++ w'.steps) = some both ∧
      (∀ kind, c.lists kind = both.items kind ∧ (c.lists kind).Nodup) ∧
      c.box = some s₂.box ∧ both.box = s₁.box.join s₂.box ∧
      (c.wavelength = [] ↔ w.wavelength = []) := by
  have hs : s.Inv := .of_reach h
  let w := walk (equipmentIdw t row) (s.startEquipment t)
  obtain ⟨s₁, h₁, hinv₁, -⟩ := (hs.discover false _).run t w.steps
  let w' := walk (equipmentIdp t row) (s₁.startEquipment t)
  obtain ⟨s₂, h₂, hinv₂, -⟩ := (hinv₁.discover false _).run t w'.steps
  have hboth := run_startEquipment hs h₁ h₂
  have hitems (kind : Kind) : s₁.items kind ++ s₂.items kind =
      (joined s₁.items s₁.box s₂).items kind := by
    obtain ⟨l, hl⟩ := Option.isSome_iff_exists.mp (hinv₂.lists kind)
    simp [items, joined, hl]
  let merged : Circuits := {
    lists := fun kind => s₁.items kind ++ s₂.items kind
    box := some s₂.box
    wavelength := combine w.wavelength w'.wavelength
    signalRate := combine w.signalRate w'.signalRate }
  refine ⟨w, w', s₁, s₂, _, merged, ?_, rfl, h₁, rfl, h₂, hboth, ?_, rfl, rfl, combine_eq_nil⟩
  · have hfirst : s.initGlobalVariable.discoverEquipment t walk (equipmentIdw t row) =
        some (s₁, ⟨s₁.items, some s₁.box, w.wavelength, w.signalRate⟩) :=
      congrArg (Option.bind · _) h₁
    have hsecond : s₁.discoverEquipment t walk (equipmentIdp t row) =
        some (s₂, ⟨s₂.items, some s₂.box, w'.wavelength, w'.signalRate⟩) :=
      congrArg (Option.bind · _) h₂
    simp only [discoverProtectionSwitch, hopsm, hrow, hfirst, hsecond, Option.bind_eq_bind,
      Option.bind_some]
    rfl
  · intro kind
    obtain ⟨both, hrun, hinv, -⟩ := (hs.discover false _).run t (w.steps ++ w'.steps)
    obtain rfl := Option.some.inj (hboth.symm.trans hrun)
    refine ⟨hitems kind, ?_⟩
    change (s₁.items kind ++ s₂.items kind).Nodup
    rw [hitems]
    exact (hinv.items kind).1

/-- A switch whose two circuits share a facility, with a NE each. -/
def sharedTables : SwitchTables where
  toTables := plainTables
  coordByTid neId := if neId = lit "1" then some (some 10, some 20) else some (some 30, none)
  coordByClli _ := none
  circuitCache := true
  opsm _ := none
  och _ := none
  onePlusOne _ := some {
    ochFromIdw := lit "11"
    ochToIdw := lit "21"
    ochFromIdp := lit "12"
    ochToIdp := lit "22"
    facFromId := lit "11"
    facToId := lit "12" }
  ochParentId _ _ := none
  facParentId := some

/-- Only the protecting circuit has a wavelength. -/
def sharedWalk (id : Str) (_ : Discovery) : Walk :=
  if id = lit "21" then ⟨[.found (.fac (lit "5")), .bounds (lit "1")], [], []⟩
  else ⟨[.found (.fac (lit "5")), .found (.fac (lit "6")), .bounds (lit "2")], lit "7", []⟩

/-- The facility they share is listed once, and the wavelength is not returned. -/
theorem discoverProtectionSwitch_merged_shared :
    ∃ (s' : Discovery) (c : Circuits),
      atPart.discoverProtectionSwitch sharedTables sharedWalk (lit "9") = some (s', c) ∧
      c.lists .facilities = [lit "5", lit "6"] ∧ c.wavelength = [] := by
  obtain ⟨w, w', s₁, s₂, both, c, hc, rfl, -, rfl, -, hboth, hlists, -, -, hwavelength⟩ :=
    discoverProtectionSwitch_merged sharedTables sharedWalk (lit "9") atPart_reached rfl rfl
  refine ⟨s₂, c, hc, ?_, hwavelength.mpr rfl⟩
  have hfacilities : ((atPart.startEquipment sharedTables).run sharedTables
      ((sharedWalk (lit "21") atPart).steps ++ (sharedWalk (lit "22") atPart).steps)).map
        (fun s => s.items .facilities) = some [lit "5", lit "6"] := by
    decide +kernel
  have hsame := (congrArg (Option.map fun s => items s .facilities) hboth).symm.trans hfacilities
  exact (hlists .facilities).1.trans (Option.some.inj hsame)

end

end Discovery

end Realwork.Circuit
