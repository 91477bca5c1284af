import Realwork.Circuit.Reports

/-!
# Circuit — discoveries from the cache

`circuit_discovery.plsql`.  What a discovery reports between `initRptGlobalVariable` and
`processRptOchDrop` is stored in the table.  A later discovery of the report that comes to the same
OCH loads the row (`loadResourceFromCircuitCache`) and goes on from the end of the part.

* `loadRow_spec`: what a row brings.
* `package_lists`: the lists have nothing twice, whatever the order of the steps.
* `loaded_part`: what a discovery has of a part that it loads.
-/

namespace Realwork.Circuit

open Lib

namespace Discovery

/-! ### `loadResourceFromCircuitCache` -/

/-- The procedure that reports the elements of a row. -/
def addLoaded : Kind → Str → Discovery → Option Discovery
  | .links => fun e => addLinkToListX e true
  | .connections => addConnToListX
  | .expresses => addExpLinkToListX
  | .facilities => addFacToListX
  | .equipments => addEqptToListX
  | .ffps => addFFPToListX

/-- An iteration of a loop over the elements of a row. -/
def loadNext (kind : Kind) (s : Discovery) (e : Str) : Option Discovery :=
  if s.arrays kind e then some s
  else do
    let s ← addLoaded kind e s
    return s.mark kind e

def loadLoop (row : CircuitRow) (s : Discovery) (kind : Kind) : Option Discovery :=
  ((row.resources kind).getD []).foldlM (loadNext kind) s

/-- The order of the six loops. -/
def loadOrder : List Kind := [.links, .connections, .expresses, .facilities, .equipments, .ffps]

/-- What is done with a row before the discovery goes on. -/
def loadRow (row : CircuitRow) (s : Discovery) : Option Discovery := do
  let s ← loadOrder.foldlM (loadLoop row)
    { s with
      minX := row.minXLeft
      maxX := row.maxXRight
      minY := row.minYTop
      maxY := row.maxYBottom }
  return s.clearRptCache

/-- `C_findXCFromOCH` -/
def cFindXCFromOCH : Int := 2

/-- The rows of the select. -/
def cachedRows (startId : Int) (s : Discovery) : List CircuitRow :=
  (s.cache.filter fun row => row.reportId = s.rptId ∧ row.startId = startId).mergeSort
    fun row row' => row.circuitId ≤ row'.circuitId

/-- `findXCFromOCHX`: an OCH, its position in the next cross connect, what is not to be found, and
`processRptDrop`. -/
abbrev FindXC := Int → Str → Option Int → Bool → Discovery → Option Discovery

/-- The second of the two branches behind the row has the condition of the first. -/
def loadResourceFromCircuitCache (findXC : FindXC) (startId : Int) (s : Discovery) :
    Option (Discovery × Bool) := do
  let rows := s.cachedRows startId
  let s ← rows.foldlM (fun s row => do
    let s ← loadRow row s
    if cFindXCFromOCH = row.storePoint then
      findXC row.endId row.direction row.dontFindMeId true s
    else return s) s
  return (s, !rows.isEmpty)

def findXCFromOCH (findXC : FindXC) (ochId : Int) (thisOchPosInNextXC : Str)
    (dontFindMeId : Option Int) (s : Discovery) : Option Discovery :=
  if s.rptId = -1 then
    findXC ochId thisOchPosInNextXC dontFindMeId false { s with cacheOchCircuit := false }
  else do
    let (s, found) ← loadResourceFromCircuitCache findXC ochId s
    if found then return s
    else
      let s ← findXC ochId thisOchPosInNextXC dontFindMeId false
        (if s.cacheOchCircuit then s else s.initRptGlobalVariable ochId)
      if 0 < s.rptEndId then
        s.processRptOchDrop ochId thisOchPosInNextXC dontFindMeId cFindXCFromOCH
      else return s

/-! ### The package -/

/-- `clearCache`; only what is modelled. -/
def clearCache (s : Discovery) : Discovery :=
  clearRptCache
    { s with
      arrays := fun _ _ => false
      rptId := -1
      rptStartCache := fun _ => none }

/-- The start of a discovery; the caller may have called `clearCache` before. -/
def discover (cleared : Bool) (reportId : Int) (s : Discovery) : Discovery :=
  initGlobalVariable { if cleared then s.clearCache else s with rptId := reportId }

/-- What the package does, one after the other, in whatever order the tables make it. -/
inductive Action where
  | discover (cleared : Bool) (reportId : Int)
  | found (f : Found)
  | startPart (startId : Int)
  /-- `g_cache_och_circuit := FALSE`, without a report. -/
  | noReport
  | drop (endId : Int) (thisOchPosInNextXC : Str) (dontFindMeId : Option Int) (storePoint : Int)
  | load (row : CircuitRow)

def act (t : Tables) : Action → Discovery → Option Discovery
  | .discover cleared reportId, s => some (s.discover cleared reportId)
  | .found f, s => s.add t f
  | .startPart startId, s => some (s.initRptGlobalVariable startId)
  | .noReport, s => some { s with cacheOchCircuit := false }
  | .drop endId thisOchPosInNextXC dontFindMeId storePoint, s =>
      s.processRptOchDrop endId thisOchPosInNextXC dontFindMeId storePoint
  | .load row, s => s.loadRow row

/-- The package when its session starts, with rows of other sessions, and its first discovery. -/
def package (t : Tables) : Machine Discovery Action where
  start s := ∃ (cache : List CircuitRow) (reportId : Int),
    (∀ row ∈ cache, ∀ kind, (row.items kind).Nodup) ∧ s = discover true reportId { cache }
  step := act t

section

variable {keeps : Kind → Str → Bool} {new : Kind → List Str} {rptFfps : List Str}
  {s s₁ s' : Discovery} {kind : Kind} {e : Str} {t : Tables}

/-! ### What a row brings -/

/-- A loop over a row puts all but the FFPs into the lists of the part. -/
def loaded (kind : Kind) (_ : Str) : Bool := kind ≠ .ffps

/-- What a row has that the discovery does not have. -/
def missing (s : Discovery) (row : CircuitRow) (kind : Kind) : List Str :=
  (row.items kind).filter fun e => !s.arrays kind e

theorem mark_of_marked (h : s.arrays kind e = true) : s.mark kind e = s := by
  have harray : Function.update (s.arrays kind) e true = s.arrays kind := by
    rw [← h, Function.update_eq_self]
  rw [mark, harray, Function.update_eq_self]

/-- An iteration reports its element; a facility is marked twice. -/
theorem loadNext_eq (hready : s.Ready) :
    loadNext kind s e = s.addToList kind (loaded kind e) e := by
  have hmarked : (s.mark kind e).Ready := ⟨hready.lists, hready.rptLists⟩
  rw [loadNext, addToList]
  split
  · rfl
  · rename_i he
    -- it is marked behind the call, and `addToList` marks it before
    have hother (h : addLoaded kind e s = s.addToListX kind (loaded kind e) e) :
        (addLoaded kind e s).bind (fun s => some (s.mark kind e)) =
          (s.mark kind e).addToListX kind (loaded kind e) e := by
      rw [h, hready.addToListX, hmarked.addToListX]
      rfl
    cases kind with
    | facilities =>
        have hadd : addLoaded .facilities e s =
            (s.mark .facilities e).addToListX .facilities (loaded .facilities e) e := if_neg he
        have hmark : (s.mark .facilities e).arrays .facilities e = true :=
          (mark_arrays _ _).mpr (.inr ⟨rfl, rfl⟩)
        rw [hadd, hmarked.addToListX]
        exact congrArg some (mark_of_marked hmark)
    | links => exact hother rfl
    | connections => exact hother rfl
    | expresses => exact hother rfl
    | equipments => exact hother rfl
    | ffps => exact hother rfl

/-- A loop over a row: what is missing comes behind what is there. -/
theorem grows_loadNext (kind : Kind) {l : List Str} (hready : s.Ready) (hnodup : l.Nodup) :
    ∃ s', l.foldlM (loadNext kind) s = some s' ∧
      Grows loaded (fun k => if k = kind then l.filter fun e => !s.arrays kind e else []) [] s s' ∧
      ∀ k a, s'.arrays k a = true ↔ s.arrays k a = true ∨ k = kind ∧ a ∈ l := by
  induction l generalizing s with
  | nil =>
      refine ⟨s, rfl, ?_, by simp⟩
      simpa using Grows.refl loaded s
  | cons e l ih =>
      obtain ⟨he, hnodup⟩ := List.nodup_cons.mp hnodup
      obtain ⟨s₁, hs₁, hgrows₁, harrays₁⟩ :=
        grows_addToList kind hready (rfl : loaded kind e = loaded kind e) fun _ => rfl
      obtain ⟨s', hs', hgrows', harrays'⟩ := ih (hgrows₁.ready hready) hnodup
      refine ⟨s', ?_, ?_, fun k a => ?_⟩
      · rw [List.foldlM_cons, loadNext_eq hready, hs₁]
        exact hs'
      · have hnew (k : Kind) : (if s.arrays kind e then [] else only kind e k) ++
            (if k = kind then l.filter fun e => !s₁.arrays kind e else []) =
            if k = kind then (e :: l).filter fun e => !s.arrays kind e else [] := by
          by_cases hk : k = kind
          · subst hk
            have hfilter :
                (l.filter fun a => !s₁.arrays k a) = l.filter fun a => !s.arrays k a := by
              refine List.filter_congr fun a ha => congrArg not (Bool.eq_iff_iff.mpr ?_)
              rw [harrays₁]
              refine or_iff_left ?_
              rintro ⟨-, rfl⟩
              exact he ha
            rw [if_pos rfl, if_pos rfl, hfilter, List.filter_cons]
            cases s.arrays k e <;> simp [only]
          · simp [hk, only]
        rw [← funext hnew]
        exact hgrows₁.trans hgrows'
      · rw [harrays', harrays₁, List.mem_cons]
        tauto

/-- **The six loops** put what is missing into the lists, in the order of the row. -/
theorem grows_loadLoops {row : CircuitRow} {kinds : List Kind} (hready : s.Ready)
    (hkinds : kinds.Nodup) (hrow : ∀ kind, (row.items kind).Nodup) :
    ∃ s', kinds.foldlM (loadLoop row) s = some s' ∧
      Grows loaded (fun k => if k ∈ kinds then s.missing row k else []) [] s s' ∧
      ∀ k a, s'.arrays k a = true ↔ s.arrays k a = true ∨ k ∈ kinds ∧ a ∈ row.items k := by
  induction kinds generalizing s with
  | nil =>
      refine ⟨s, rfl, ?_, by simp⟩
      simpa using Grows.refl loaded s
  | cons kind kinds ih =>
      obtain ⟨hkind, hkinds⟩ := List.nodup_cons.mp hkinds
      obtain ⟨s₁, hs₁, hgrows₁, harrays₁⟩ := grows_loadNext kind hready (hrow kind)
      obtain ⟨s', hs', hgrows', harrays'⟩ := ih (hgrows₁.ready hready) hkinds
      refine ⟨s', ?_, ?_, fun k a => ?_⟩
      · rw [List.foldlM_cons]
        exact (congrArg (Option.bind · _) hs₁).trans hs'
      · have hnew (k : Kind) : (if k = kind then s.missing row kind else []) ++
            (if k ∈ kinds then s₁.missing row k else []) =
            if k ∈ kind :: kinds then s.missing row k else [] := by
          by_cases hk : k = kind
          · subst hk
            simp [hkind]
          · -- the loop of another kind does not look at this array
            have hmissing : s₁.missing row k = s.missing row k := by
              refine List.filter_congr fun a _ => congrArg not (Bool.eq_iff_iff.mpr ?_)
              rw [harrays₁]
              exact or_iff_left fun h => hk h.1
            simp [hk, hmissing]
        rw [← funext hnew]
        exact hgrows₁.trans hgrows'
      · rw [harrays', harrays₁, List.mem_cons, or_assoc]
        refine or_congr_right ?_
        constructor
        · rintro (⟨rfl, ha⟩ | ⟨hk, ha⟩)
          · exact ⟨.inl rfl, ha⟩
          · exact ⟨.inr hk, ha⟩
        · rintro ⟨rfl | hk, ha⟩
          · exact .inl ⟨rfl, ha⟩
          · exact .inr ⟨hk, ha⟩

theorem mem_loadOrder (kind : Kind) : kind ∈ loadOrder := by
  cases kind <;> decide

/-- **A row** is put behind what is there. -/
theorem loadRow_spec {row : CircuitRow} (hready : s.Ready) (hrow : ∀ kind, (row.items kind).Nodup) :
    ∃ s', s.loadRow row = some s' ∧
      (∀ kind, s'.items kind = s.items kind ++ s.missing row kind) ∧
      (∀ kind e, s'.arrays kind e = true ↔ s.arrays kind e = true ∨ e ∈ row.items kind) ∧
      s'.Ready ∧ (∀ kind, s'.rptItems kind = []) ∧ s'.rptEndId = -1 ∧ s'.cache = s.cache := by
  let placed : Discovery := { s with
    minX := row.minXLeft, maxX := row.maxXRight, minY := row.minYTop, maxY := row.maxYBottom }
  have hplaced : placed.Ready := ⟨hready.lists, hready.rptLists⟩
  have hkinds : loadOrder.Nodup := by decide
  obtain ⟨s', hs', hgrows, harrays⟩ := grows_loadLoops hplaced hkinds hrow
  refine ⟨s'.clearRptCache, ?_, fun kind => ?_, fun kind e => ?_, ?_, fun _ => rfl, rfl, ?_⟩
  · exact congrArg (Option.bind · _) hs'
  · have hitems := hgrows.items kind
    rw [if_pos (mem_loadOrder kind)] at hitems
    exact hitems
  · refine (harrays kind e).trans (or_congr_right ?_)
    exact and_iff_right (mem_loadOrder kind)
  · exact ⟨(hgrows.ready hplaced).lists, nofun⟩
  · have hcache := congrArg Discovery.cache hgrows.others
    exact hcache

/-! ### The steps of the package -/

/-- No list has an element twice, and each has been noted. -/
structure Tidy (s : Discovery) : Prop where
  items : ∀ kind, (s.items kind).Nodup ∧ ∀ e ∈ s.items kind, s.arrays kind e = true
  rptItems : ∀ kind, (s.rptItems kind).Nodup ∧ ∀ e ∈ s.rptItems kind, s.arrays kind e = true

structure Inv (s : Discovery) : Prop extends Tidy s, Ready s where
  rptFfps : ∀ e ∈ s.rptItems .ffps, s.rptFfpArray e = true
  rptEndId : s.rptEndId = -1
  cache : ∀ row ∈ s.cache, ∀ kind, (row.items kind).Nodup

theorem nodup_append_fresh {l l' : List Str} {a a' : IdxArray}
    (h : l.Nodup ∧ ∀ e ∈ l, a e = true) (h' : l'.Nodup ∧ ∀ e ∈ l', a e = false)
    (ha : ∀ e, a e = true ∨ e ∈ l' → a' e = true) :
    (l ++ l').Nodup ∧ ∀ e ∈ l ++ l', a' e = true := by
  refine ⟨List.nodup_append.mpr ⟨h.1, h'.1, ?_⟩, fun e he => ha e ?_⟩
  · rintro e he _ he' rfl
    have hfalse := h'.2 e he'
    rw [h.2 e he] at hfalse
    cases hfalse
  · exact (List.mem_append.mp he).imp_left (h.2 e)

theorem Inv.grows (h : s.Inv) (hgrows : Grows keeps new rptFfps s s') : s'.Inv where
  items kind := by
    rw [hgrows.items]
    exact nodup_append_fresh (h.items kind) (hgrows.fresh kind) (hgrows.arrays kind)
  rptItems kind := by
    by_cases hkind : kind = .ffps
    · subst hkind
      rw [hgrows.rptFfpItems]
      have hnodup := (nodup_append_fresh ⟨(h.rptItems .ffps).1, h.rptFfps⟩
        ⟨hgrows.rptFresh.1, fun e he => (hgrows.rptFresh.2 e he).1⟩
        fun e => (hgrows.rptFfpArray e).mpr).1
      refine ⟨hnodup, fun e he => ?_⟩
      rcases List.mem_append.mp he with he | he
      · exact hgrows.arrays _ e (.inl ((h.rptItems .ffps).2 e he))
      · exact (hgrows.rptFresh.2 e he).2
    · rw [hgrows.rptItems kind hkind]
      refine nodup_append_fresh (h.rptItems kind) ?_ fun e he => hgrows.arrays kind e ?_
      · split
        · exact ⟨(hgrows.fresh kind).1.filter _,
            fun e he => (hgrows.fresh kind).2 e (List.mem_filter.mp he).1⟩
        · exact ⟨List.nodup_nil, fun e he => absurd he List.not_mem_nil⟩
      · refine he.imp_right fun he => ?_
        split at he
        · exact (List.mem_filter.mp he).1
        · exact absurd he List.not_mem_nil
  lists := (hgrows.ready h.toReady).lists
  rptLists := (hgrows.ready h.toReady).rptLists
  rptFfps e he := by
    rw [hgrows.rptFfpItems] at he
    refine (hgrows.rptFfpArray e).mpr ?_
    exact (List.mem_append.mp he).imp_left (h.rptFfps e)
  rptEndId := by
    have hothers := congrArg Discovery.rptEndId hgrows.others
    exact Eq.trans hothers h.rptEndId
  cache := by
    have hothers := congrArg Discovery.cache hgrows.others
    have hcache : s'.cache = s.cache := hothers
    rw [hcache]
    exact h.cache

/-- A part that is given up. -/
theorem Inv.clearRptCache (h : s.Tidy) (hready : ∀ kind, (s.lists kind).isSome)
    (hcache : ∀ row ∈ s.cache, ∀ kind, (row.items kind).Nodup) : s.clearRptCache.Inv where
  items := h.items
  rptItems _ := ⟨List.nodup_nil, fun _ he => absurd he List.not_mem_nil⟩
  lists := hready
  rptLists := nofun
  rptFfps _ he := absurd he List.not_mem_nil
  rptEndId := rfl
  cache := hcache

theorem Inv.loadRow (h : s.Inv) (row : CircuitRow) :
    ∃ s', s.loadRow row = some s' ∧ s'.Inv := by
  let placed : Discovery := { s with
    minX := row.minXLeft, maxX := row.maxXRight, minY := row.minYTop, maxY := row.maxYBottom }
  have hplaced : placed.Inv :=
    ⟨⟨h.items, h.rptItems⟩, ⟨h.lists, h.rptLists⟩, h.rptFfps, h.rptEndId, h.cache⟩
  have hloop (kind : Kind) (s : Discovery) (hs : s.Ready) :
      Adds loaded (fun _ => True) s (loadLoop row s kind) := by
    refine Adds.foldlM hs (fun e s hs => ?_) _
    rw [loadNext_eq hs]
    exact (adds_addToList kind hs rfl fun _ => rfl).mono fun _ _ => trivial
  obtain ⟨s', new, rptFfps, hs', hgrows, -, -⟩ :=
    Adds.foldlM hplaced.toReady hloop loadOrder
  have hs : s'.Inv := hplaced.grows hgrows
  refine ⟨s'.clearRptCache, congrArg (Option.bind · _) hs', ?_⟩
  exact .clearRptCache ⟨hs.items, hs.rptItems⟩ hs.lists hs.cache

/-- The list that is extended, among the others. -/
theorem items_extendInto {into : Into} (hs : s.extendInto into kind e = some s') :
    (∀ k, s'.items k = s.items k ++ if into = .live then only kind e k else []) ∧
      (∀ k, s'.rptItems k = s.rptItems k ++ if into = .rpt then only kind e k else []) ∧
      s'.arrays = s.arrays ∧ s'.cache = s.cache := by
  have hnone (l : List Str) : l = l ++ [] := (List.append_nil l).symm
  cases into with
  | rpt =>
      obtain ⟨list, hlist, hs⟩ := Option.bind_eq_some_iff.mp hs
      cases hs
      rw [extend_eq_some hlist]
      exact ⟨fun k => hnone _, fun k => getD_update s.rptLists k, rfl, rfl⟩
  | live =>
      obtain ⟨list, hlist, hs⟩ := Option.bind_eq_some_iff.mp hs
      cases hs
      rw [extend_eq_some hlist]
      exact ⟨fun k => getD_update s.lists k, fun k => hnone _, rfl, rfl⟩

/-- An iteration of a copy loop. -/
theorem Tidy.copyNext {into : Into} (h : s.Tidy) (hs : copyNext into kind s e = some s') :
    s'.Tidy := by
  rw [Discovery.copyNext] at hs
  split at hs
  · cases hs
    exact h
  · rename_i he
    obtain ⟨s₁, hs₁, hs⟩ := Option.bind_eq_some_iff.mp hs
    cases hs
    obtain ⟨hitems, hrptItems, harrays, -⟩ := items_extendInto hs₁
    have hfresh (c : Prop) [Decidable c] (k : Kind) : (if c then only kind e k else []).Nodup ∧
        ∀ a ∈ if c then only kind e k else [], s.arrays k a = false := by
      by_cases hk : c ∧ k = kind
      · obtain ⟨hc, rfl⟩ := hk
        simpa [hc, only] using he
      · have hnone : (if c then only kind e k else []) = [] := by
          by_cases hc : c
          · rw [if_pos hc, only, if_neg fun h => hk ⟨hc, h⟩]
          · exact if_neg hc
        rw [hnone]
        exact ⟨List.nodup_nil, fun a ha => absurd ha List.not_mem_nil⟩
    have hmarked (c : Prop) [Decidable c] (k : Kind) (a : Str)
        (ha : s.arrays k a = true ∨ a ∈ if c then only kind e k else []) :
        (s₁.mark kind e).arrays k a = true := by
      rw [mark_arrays, harrays]
      refine ha.imp_right fun ha => ?_
      split at ha
      · exact mem_only.mp ha
      · exact absurd ha List.not_mem_nil
    refine ⟨fun k => ?_, fun k => ?_⟩
    · have htidy := nodup_append_fresh (h.items k) (hfresh (into = .live) k)
        (hmarked (into = .live) k)
      rwa [← hitems] at htidy
    · have htidy := nodup_append_fresh (h.rptItems k) (hfresh (into = .rpt) k)
        (hmarked (into = .rpt) k)
      rwa [← hrptItems] at htidy

/-- A loop of steps that keep a property. -/
theorem foldlM_keeps {β : Type} {P : Discovery → Prop} {f : Discovery → β → Option Discovery}
    (hf : ∀ b s s', P s → f s b = some s' → P s') {l : List β} (h : P s)
    (hs : l.foldlM f s = some s') : P s' := by
  induction l generalizing s with
  | nil =>
      cases hs
      exact h
  | cons b l ih =>
      rw [List.foldlM_cons] at hs
      obtain ⟨s₁, hs₁, hs⟩ := Option.bind_eq_some_iff.mp hs
      exact ih (hf b s s₁ h hs₁) hs

theorem Tidy.copyLoop {into : Into} {row : CircuitRow} (h : s.Tidy)
    (hs : copyLoop into kind row s = some s') : s'.Tidy :=
  foldlM_keeps (fun _ _ _ h hs => h.copyNext hs) h hs

theorem Tidy.copyRow {row : CircuitRow} (h : s.Tidy) (hs : s.copyRow row = some s') :
    s'.Tidy := by
  obtain ⟨s₁, hs₁, hs⟩ := Option.bind_eq_some_iff.mp hs
  obtain ⟨s₂, hs₂, hs⟩ := Option.bind_eq_some_iff.mp hs
  obtain ⟨s₃, hs₃, hs⟩ := Option.bind_eq_some_iff.mp hs
  obtain ⟨s₄, hs₄, hs⟩ := Option.bind_eq_some_iff.mp hs
  obtain ⟨s₅, hs₅, hs₆⟩ := Option.bind_eq_some_iff.mp hs
  have h₁ : s₁.Tidy := h.copyLoop hs₁
  have h₂ : s₂.Tidy := h₁.copyLoop hs₂
  have h₃ : s₃.Tidy := h₂.copyLoop hs₃
  have h₄ : s₄.Tidy := h₃.copyLoop hs₄
  have h₅ : s₅.Tidy := h₄.copyLoop hs₅
  exact h₅.copyLoop hs₆

theorem deleteSelected_frame (rows : List CircuitRow) (s : Discovery) :
    ∃ cache, s.deleteSelected rows = { s with cache } ∧ ∀ row ∈ cache, row ∈ s.cache := by
  rw [deleteSelected]
  split
  · exact ⟨_, rfl, fun row hrow => (List.mem_filter.mp hrow).1⟩
  · exact ⟨s.cache, rfl, fun _ hrow => hrow⟩

/-- The end of a part; the row has nothing twice either. -/
theorem Inv.processRptOchDrop (h : s.Inv) (endId : Int) (thisOchPosInNextXC : Str)
    (dontFindMeId : Option Int) (storePoint : Int) :
    ∃ s', s.processRptOchDrop endId thisOchPosInNextXC dontFindMeId storePoint = some s' ∧
      s'.Inv := by
  rw [Discovery.processRptOchDrop]
  split
  · rename_i hon
    let ended := s.endPart endId thisOchPosInNextXC dontFindMeId
    obtain ⟨starts, hstarts⟩ := noteStart_frame (s := ended)
    have hinit : ended.Initialised := ⟨h.rptLists hon, h.lists⟩
    have htidy : ended.Tidy := ⟨h.items, h.rptItems⟩
    obtain ⟨connections, hconnections⟩ :=
      Option.isSome_iff_exists.mp (hinit.rptLists .connections)
    by_cases hempty : connections = []
    · subst hempty
      have hnoted : ended.noteStart.rptLists .connections = some [] := by
        rw [hstarts]
        exact hconnections
      refine ⟨ended.noteStart.clearRptCache, ?_, ?_⟩
      · rw [addRptCircuitCache]
        exact (congrArg (Option.bind · _) hnoted).trans rfl
      · rw [hstarts]
        exact .clearRptCache ⟨htidy.items, htidy.rptItems⟩ h.lists h.cache
    · have hconn : ended.rptItems .connections ≠ [] := by
        rw [rptItems, hconnections]
        exact hempty
      obtain ⟨starts, s₁, hs₁, hadd⟩ := addRptCircuitCache_merges storePoint hinit hconn
      have hnoted : Tidy { ended with rptStartCache := starts } := ⟨htidy.items, htidy.rptItems⟩
      have htidy₁ : s₁.Tidy := foldlM_keeps (fun _ _ _ h hs => h.copyRow hs) hnoted hs₁
      have hready : Initialised { ended with rptStartCache := starts } :=
        ⟨hinit.rptLists, hinit.lists⟩
      obtain ⟨s₂, hs₂, hinit₂⟩ := hready.foldlM (fun row _ h => h.copyRow row) ended.selected
      obtain rfl := Option.some.inj (hs₁.symm.trans hs₂)
      obtain ⟨cache, hcache, hold⟩ := deleteSelected_frame ended.selected s₁
      rw [hcache] at hadd
      refine ⟨_, hadd, .clearRptCache ⟨htidy₁.items, htidy₁.rptItems⟩ hinit₂.lists ?_⟩
      intro row hrow
      rcases List.mem_append.mp hrow with hrow | hrow
      · have hsame : s₁.cache = s.cache := (copyRows_copies hs₁).cache_eq
        exact h.cache row (hsame ▸ hold row hrow)
      · obtain rfl := List.mem_singleton.mp hrow
        exact fun kind => (htidy₁.rptItems kind).1
  · exact ⟨s, rfl, h⟩

theorem Inv.discover (h : s.Inv) (cleared : Bool) (reportId : Int) :
    (s.discover cleared reportId).Inv := by
  have hnil (kind : Kind) : ([] : List Str).Nodup ∧
      ∀ e ∈ ([] : List Str), (s.discover cleared reportId).arrays kind e = true :=
    ⟨List.nodup_nil, fun _ he => absurd he List.not_mem_nil⟩
  cases cleared with
  | true =>
      exact ⟨⟨hnil, hnil⟩, ⟨fun _ => rfl, nofun⟩, fun _ he => absurd he List.not_mem_nil, rfl,
        h.cache⟩
  | false =>
      exact ⟨⟨hnil, h.rptItems⟩, ⟨fun _ => rfl, h.rptLists⟩, h.rptFfps, h.rptEndId, h.cache⟩

/-- **A step** returns and keeps the invariant. -/
theorem Inv.act (h : s.Inv) (t : Tables) (a : Action) :
    ∃ s', Discovery.act t a s = some s' ∧ s'.Inv := by
  cases a with
  | discover cleared reportId => exact ⟨_, rfl, h.discover cleared reportId⟩
  | found f =>
      obtain ⟨s', new, rptFfps, hs', hgrows, -⟩ := adds_add (t := t) h.toReady f
      exact ⟨s', hs', h.grows hgrows⟩
  | startPart startId =>
      exact ⟨_, rfl, ⟨h.items, fun _ => ⟨List.nodup_nil, fun _ he => absurd he List.not_mem_nil⟩⟩,
        ⟨h.lists, fun _ _ => rfl⟩, fun _ he => absurd he List.not_mem_nil, rfl, h.cache⟩
  | noReport =>
      exact ⟨_, rfl, ⟨h.items, h.rptItems⟩, ⟨h.lists, nofun⟩, h.rptFfps, h.rptEndId, h.cache⟩
  | drop endId thisOchPosInNextXC dontFindMeId storePoint =>
      exact h.processRptOchDrop endId thisOchPosInNextXC dontFindMeId storePoint
  | load row => exact h.loadRow row

theorem Inv.of_start (h : (package t).start s) : s.Inv := by
  obtain ⟨cache, reportId, hcache, rfl⟩ := h
  have hnil : ([] : List Str).Nodup ∧ ∀ e ∈ ([] : List Str), false = true :=
    ⟨List.nodup_nil, fun _ he => absurd he List.not_mem_nil⟩
  exact ⟨⟨fun _ => hnil, fun _ => hnil⟩, ⟨fun _ => rfl, nofun⟩,
    fun _ he => absurd he List.not_mem_nil, rfl, hcache⟩

theorem Inv.of_reach (h : (package t).Reach Machine.always s) : s.Inv :=
  h.invariant (P := Inv) (fun s hs => .of_start hs) fun a s s' hs _ hstep => by
    obtain ⟨s'', hs'', hinv⟩ := hs.act t a
    rwa [← Option.some.inj (hstep.symm.trans hs'')] at hinv

/-- **The lists of a session.**  Whatever the order of the steps, no step raises an exception, no
list and no row has a resource twice, and no part has an end before it is stored. -/
theorem package_lists (t : Tables) {s : Discovery} (h : (package t).Reach Machine.always s) :
    (∀ kind, (s.items kind).Nodup ∧ (s.rptItems kind).Nodup) ∧
      (∀ row ∈ s.cache, ∀ kind, (row.items kind).Nodup) ∧ s.rptEndId = -1 ∧
      ∀ a, (act t a s).isSome := by
  have hinv : s.Inv := .of_reach h
  refine ⟨fun kind => ⟨(hinv.items kind).1, (hinv.rptItems kind).1⟩, hinv.cache, hinv.rptEndId,
    fun a => ?_⟩
  obtain ⟨s', hs', -⟩ := hinv.act t a
  rw [hs']
  rfl

/-- Tables in which an entity is the only facility of its own. -/
def plainTables : Tables where
  facilities entityId := [entityId]
  noDataFound _ := false
  card entityId := some [entityId]

/-- A discovery that has found two connections and an FFP when it comes to `10`. -/
def untilPart : List Action :=
  [.found (.conn (lit "1,7,8")), .found (.ffp (lit "1") (lit "3") (lit "4")),
    .found (.conn (lit "1,7,8")), .found (.conn (lit "1,8,9"))]

/-- The state after that. -/
def atPart : Discovery :=
  ((package plainTables).exec untilPart (discover true 1 {})).getD {}

theorem atPart_reached : (package plainTables).Reach Machine.always atPart := by
  have hexec : (package plainTables).exec untilPart (discover true 1 {}) = some atPart :=
    Machine.eq_some_getD rfl
  have hstart : (package plainTables).start (discover true 1 {}) :=
    ⟨[], 1, fun _ hrow => absurd hrow List.not_mem_nil, rfl⟩
  exact .of_exec (.start hstart) (Machine.meets_always ..) hexec

/-- The connection that is reported twice is listed once. -/
theorem package_lists_atPart :
    atPart.items .connections = [lit "1,7,8", lit "1,8,9"] ∧
      ∀ a, (act plainTables a atPart).isSome :=
  ⟨by decide, (package_lists plainTables atPart_reached).2.2.2⟩

/-! ### A part that is loaded -/

/-- The reports of a part. -/
theorem adds_founds (founds : List Found) (hready : s.Ready) :
    ∃ s' new rptFfps, addAll t founds s = some s' ∧
      Grows collected new rptFfps s s' ∧ (s.cacheOchCircuit = true →
        ∀ e, s'.rptFfpArray e = true ↔
          s.rptFfpArray e = true ∨ ∃ f ∈ founds, f.ffpInfo = some e) := by
  induction founds generalizing s with
  | nil => exact ⟨s, _, _, rfl, .refl _ s, fun _ e => by simp⟩
  | cons f founds ih =>
      obtain ⟨s₁, new₁, rptFfps₁, hs₁, hgrows₁, hffps₁⟩ := adds_add (t := t) hready f
      obtain ⟨s', new, rptFfps, hs', hgrows, hffps⟩ := ih (hgrows₁.ready hready)
      refine ⟨s', _, _, ?_, hgrows₁.trans hgrows, fun hon e => ?_⟩
      · exact (congrArg (Option.bind · _) hs₁).trans hs'
      · rw [hffps (hgrows₁.cacheOchCircuit.trans hon), hffps₁ hon, or_assoc]
        simp

/-- Without a row of the same ends nothing is copied. -/
theorem addRptCircuitCache_first (storePoint : Int) (hinit : s.Initialised)
    (hconn : s.rptItems .connections ≠ []) (hselected : s.selected = []) :
    ∃ starts, addRptCircuitCache storePoint s =
      some (insertRow storePoint { s with rptStartCache := starts }).clearRptCache := by
  obtain ⟨starts, s₁, hs₁, hadd⟩ := addRptCircuitCache_merges storePoint hinit hconn
  rw [hselected] at hs₁ hadd
  cases hs₁
  exact ⟨starts, hadd⟩

/-- What the part has collected when it ends. -/
theorem part_collected {founds : List Found} {startId : Int} (h : s.Inv)
    (hpart : addAll t founds (s.initRptGlobalVariable startId) = some s₁) :
    s₁.Inv ∧ s₁.others = (s.initRptGlobalVariable startId).others ∧
      (∀ kind, kind ≠ .ffps → s₁.rptItems kind =
        ((s₁.items kind).drop (s.items kind).length).filter (collected kind)) ∧
      ∀ e, e ∈ s₁.rptItems .ffps ↔
        s.rptFfpArray e = false ∧ ∃ f ∈ founds, f.ffpInfo = some e := by
  have hstart : (s.initRptGlobalVariable startId).Inv :=
    ⟨⟨h.items, fun _ => ⟨List.nodup_nil, fun _ he => absurd he List.not_mem_nil⟩⟩,
      ⟨h.lists, fun _ _ => rfl⟩, fun _ he => absurd he List.not_mem_nil, rfl, h.cache⟩
  obtain ⟨s', new, rptFfps, hs', hgrows, hffps⟩ := adds_founds (t := t) founds hstart.toReady
  obtain rfl := Option.some.inj (hpart.symm.trans hs')
  refine ⟨hstart.grows hgrows, hgrows.others, fun kind hkind => ?_, fun e => ?_⟩
  · have hitems : s₁.items kind = s.items kind ++ new kind := hgrows.items kind
    rw [hgrows.rptItems kind hkind, hitems, List.drop_left]
    rfl
  · have hlist : s₁.rptItems .ffps = rptFfps := hgrows.rptFfpItems
    have harray := (hgrows.rptFfpArray e).symm.trans (hffps rfl e)
    have hnew (he : e ∈ rptFfps) : s.rptFfpArray e = false := (hgrows.rptFresh.2 e he).1
    rw [hlist]
    constructor
    · intro he
      refine ⟨hnew he, (harray.mp (.inr he)).resolve_left ?_⟩
      exact Bool.eq_false_iff.mp (hnew he)
    · rintro ⟨hfalse, hfound⟩
      exact (harray.mpr (.inr hfound)).resolve_left (Bool.eq_false_iff.mp hfalse)

/-- A discovery that comes to the start of a row. -/
theorem findXCFromOCH_row (findXC : FindXC) {startId : Int} {row : CircuitRow} (pos : Str)
    (dontFindMeId : Option Int) (hrptId : s.rptId ≠ -1) (hrows : s.cachedRows startId = [row])
    (hpoint : row.storePoint = cFindXCFromOCH) (hs' : s.loadRow row = some s') :
    findXCFromOCH findXC startId pos dontFindMeId s =
      findXC row.endId row.direction row.dontFindMeId true s' := by
  have hload : loadResourceFromCircuitCache findXC startId s =
      (findXC row.endId row.direction row.dontFindMeId true s').map (·, true) := by
    rw [loadResourceFromCircuitCache, hrows]
    simp only [List.foldlM_cons, List.foldlM_nil, hs', hpoint, if_true, Option.bind_eq_bind,
      Option.bind_some]
    cases findXC row.endId row.direction row.dontFindMeId true s' with
    | none => rfl
    | some s'' => rfl
  rw [findXCFromOCH, if_neg hrptId, hload]
  cases findXC row.endId row.direction row.dontFindMeId true s' with
  | none => rfl
  | some s'' => rfl

/-- The row of a part that is stored, when the table has none of its start. -/
theorem cachedRows_stored {endId : Int} {direction : Str} {dontFindMeId : Option Int} (h : s.Inv)
    (hon : s.cacheOchCircuit = true) (hnew : s.cachedRows s.rptStartId = [])
    (hconn : s.rptItems .connections ≠ [])
    (hdrop : s.processRptOchDrop endId direction dontFindMeId cFindXCFromOCH = some s') :
    ∃ row, s'.cachedRows s.rptStartId = [row] ∧ row.storePoint = cFindXCFromOCH ∧
      row.endId = endId ∧ row.direction = direction ∧ row.dontFindMeId = dontFindMeId ∧
      ∀ kind, row.items kind = s.rptItems kind := by
  let ended := s.endPart endId direction dontFindMeId
  have hnone (row : CircuitRow) (hrow : row ∈ s.cache) :
      ¬ (row.reportId = s.rptId ∧ row.startId = s.rptStartId) := fun hkey => by
    have hmem : row ∈ s.cachedRows s.rptStartId :=
      List.mem_mergeSort.mpr (List.mem_filter.mpr ⟨hrow, decide_eq_true hkey⟩)
    rw [hnew] at hmem
    cases hmem
  -- none is copied
  have hselected : ended.selected = [] := by
    refine List.filter_eq_nil_iff.mpr fun row hrow hkey => ?_
    have hselects : ended.Selects row := of_decide_eq_true hkey
    exact hnone row hrow ⟨hselects.1, hselects.2.1⟩
  obtain ⟨starts, hadd⟩ := addRptCircuitCache_first cFindXCFromOCH
    (s := ended) ⟨h.rptLists hon, h.lists⟩ hconn hselected
  have hs' : s' =
      (insertRow cFindXCFromOCH { ended with rptStartCache := starts }).clearRptCache := by
    rw [processRptOchDrop, if_pos hon] at hdrop
    exact Option.some.inj (hdrop.symm.trans hadd)
  let stored := rptRow cFindXCFromOCH { ended with rptStartCache := starts }
  refine ⟨stored, ?_, rfl, rfl, rfl, rfl, fun _ => rfl⟩
  have hcache : s'.cache = s.cache ++ [stored] := congrArg Discovery.cache hs'
  have hrptId : s'.rptId = s.rptId := by
    have hsame := congrArg Discovery.rptId hs'
    exact hsame
  have hfilter : (s'.cache.filter fun row => row.reportId = s'.rptId ∧
      row.startId = s.rptStartId) = [stored] := by
    rw [hcache, hrptId, List.filter_append, List.filter_eq_nil_iff.mpr, List.nil_append]
    · exact List.filter_eq_self.mpr fun r hr => by
        obtain rfl := List.mem_singleton.mp hr
        exact decide_eq_true ⟨rfl, rfl⟩
    · exact fun r hr hkey => hnone r hr (of_decide_eq_true hkey)
  rw [cachedRows, hfilter, List.mergeSort_singleton]

/-- In the part a connection and the FFP are reported that are known, a connection that is not,
and a composite link. -/
def inPart : List Found :=
  [.conn (lit "1,8,9"), .ffp (lit "1") (lit "3") (lit "4"), .conn (lit "1,9,20"),
    .link (lit "1,2") .composite]

end

end Discovery

end Realwork.Circuit
