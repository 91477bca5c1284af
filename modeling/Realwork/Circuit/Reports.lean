import Realwork.Circuit.Links

/-!
# Circuit — what a discovery reports

The procedures `add…ToList` of `circuit_discovery.plsql`.  Each of them looks at the array of its
kind, and puts what is not there into the list of the discovery and, while a part is collected, into
that of the part.

* `Grows`: what is put into the lists and the arrays; `Grows.trans` is for one report after another.
* `adds_add`: a report returns, and what it puts there is new.
-/

namespace Realwork.Circuit

open Lib

/-! ### The reports -/

/-- What the procedures select for an entity. -/
structure Tables where
  /-- What `addFacilityToListX` adds: the facility unless it is a VCG, its SFP, its OCHs, the DP and
  the child STS. -/
  facilities : Str → List Str
  /-- A query of `addFacilityToListX` raises `NO_DATA_FOUND` behind that. -/
  noDataFound : Str → Bool
  /-- The facilities `addEquipmentToListX` comes to; `none` if it is not a card. -/
  card : Str → Option (List Str)

/-- `v_ffpInfo` -/
def ffpInfo (neId fromFacilityId toFacilityId : Str) : Str :=
  delimited [neId, fromFacilityId, toFacilityId]

namespace Discovery

/-- `e` is reported, unless it has been. -/
def addToList (kind : Kind) (addToRptCache : Bool) (e : Str) (s : Discovery) : Option Discovery :=
  if s.arrays kind e then some s else (s.mark kind e).addToListX kind addToRptCache e

def addFacilityToListX (t : Tables) (entityId : Str) (s : Discovery) : Option Discovery :=
  (t.facilities entityId).foldlM (fun s id => s.addFacToListX id) s

/-- An empty id is NULL. -/
def addFacilityToList (t : Tables) (entityId : Str) (s : Discovery) : Option Discovery :=
  if entityId = [] ∨ s.arrays .facilities entityId then some s
  else do
    let s ← addFacilityToListX t entityId s
    return if t.noDataFound entityId then s.mark .facilities entityId else s

def addEquipmentToListX (t : Tables) (entityId : Str) (s : Discovery) : Option Discovery :=
  match t.card entityId with
  | none => some s
  | some facIds => do
      let s ← facIds.foldlM (fun s facId => addFacilityToList t facId s) s
      s.addEqptToListX entityId

def addEquipmentToList (t : Tables) (entityId : Str) (s : Discovery) : Option Discovery :=
  if s.arrays .equipments entityId then some s
  else addEquipmentToListX t entityId (s.mark .equipments entityId)

/-- The first `IF` of `addFFPToList`. -/
def addFfpWithFacilities (t : Tables) (v_ffpInfo fromFacilityId toFacilityId : Str)
    (s : Discovery) : Option Discovery :=
  if s.arrays .ffps v_ffpInfo then some s
  else do
    let s ← (s.mark .ffps v_ffpInfo).addFFPToListX v_ffpInfo
    let s ← addFacilityToList t fromFacilityId s
    addFacilityToList t toFacilityId s

/-- The second one: the part has an array of its own. -/
def addFfpToRptList (v_ffpInfo : Str) (s : Discovery) : Option Discovery :=
  if s.cacheOchCircuit && !s.rptFfpArray v_ffpInfo then
    extendInto .rpt .ffps v_ffpInfo
      { s with rptFfpArray := Function.update s.rptFfpArray v_ffpInfo true }
  else some s

/-- An empty id is NULL. -/
def addFFPToList (t : Tables) (neId fromFacilityId toFacilityId : Str) (s : Discovery) :
    Option Discovery :=
  if fromFacilityId = [] ∨ toFacilityId = [] then some s
  else
    let v_ffpInfo := ffpInfo neId fromFacilityId toFacilityId
    (addFfpWithFacilities t v_ffpInfo fromFacilityId toFacilityId s).bind
      (addFfpToRptList v_ffpInfo)

end Discovery

/-- A link, by what stands before its type in `linkInfo`. -/
inductive LinkType where
  | dwdm
  | fiber
  | composite

def LinkType.text : LinkType → Str
  | dwdm => lit ",DWDMLINK"
  | fiber => lit ",FIBERLINK"
  | composite => lit ",COMPOSITELINK"

/-- `p_add_to_rpt_cache` -/
def LinkType.addToRptCache : LinkType → Bool
  | composite => false
  | dwdm | fiber => true

/-- What a discovery reports. -/
inductive Found where
  /-- `addDWDMLinkToList`, `addFiberLinkToList`, `addCompositeLinkToList` and
  `addODUCompositeLinkToList` -/
  | link (ends : Str) (type : LinkType)
  /-- `addConnectionToList` and `addCompConnectionToList` -/
  | conn (xcInfo : Str)
  | expLink (expsInfo : Str)
  /-- `addFacToListX` -/
  | fac (entityId : Str)
  | facility (entityId : Str)
  | equipment (entityId : Str)
  | ffp (neId fromFacilityId toFacilityId : Str)

/-- The text of an FFP that is reported. -/
def Found.ffpInfo : Found → Option Str
  | ffp neId fromFacilityId toFacilityId =>
      if fromFacilityId = [] ∨ toFacilityId = [] then none
      else some (Circuit.ffpInfo neId fromFacilityId toFacilityId)
  | _ => none

namespace Discovery

def add (t : Tables) : Found → Discovery → Option Discovery
  | .link ends type => addToList .links type.addToRptCache (ends ++ type.text)
  | .conn xcInfo => addToList .connections true xcInfo
  | .expLink expsInfo => addToList .expresses true expsInfo
  | .fac entityId => addFacToListX entityId
  | .facility entityId => addFacilityToList t entityId
  | .equipment entityId => addEquipmentToList t entityId
  | .ffp neId fromFacilityId toFacilityId => addFFPToList t neId fromFacilityId toFacilityId

/-- One report after the other. -/
def addAll (t : Tables) (founds : List Found) (s : Discovery) : Option Discovery :=
  founds.foldlM (fun s f => s.add t f) s

/-! ### What a report does -/

/-- The elements of a list of the discovery. -/
def items (s : Discovery) (kind : Kind) : List Str := (s.lists kind).getD []

/-- `e`, of its kind. -/
def only (kind : Kind) (e : Str) (k : Kind) : List Str := if k = kind then [e] else []

/-- No list that is extended is NULL. -/
structure Ready (s : Discovery) : Prop where
  lists : ∀ kind, (s.lists kind).isSome
  rptLists : s.cacheOchCircuit = true → ∀ kind, (s.rptLists kind).isSome

/-- Everything but the lists and the arrays. -/
def others (s : Discovery) : Discovery :=
  { s with
    lists := fun _ => none
    rptLists := fun _ => none
    arrays := fun _ _ => false
    rptFfpArray := fun _ => false }

/-- `new` is put into the lists of the discovery, and what `keeps` says of it into those of the
part, which has its FFPs by themselves. -/
structure Grows (keeps : Kind → Str → Bool) (new : Kind → List Str) (rptFfps : List Str)
    (s s' : Discovery) : Prop where
  items : ∀ kind, s'.items kind = s.items kind ++ new kind
  fresh : ∀ kind, (new kind).Nodup ∧ ∀ e ∈ new kind, s.arrays kind e = false
  arrays : ∀ kind e, s.arrays kind e = true ∨ e ∈ new kind → s'.arrays kind e = true
  rptItems : ∀ kind, kind ≠ .ffps → s'.rptItems kind = s.rptItems kind ++
    if s.cacheOchCircuit then (new kind).filter (keeps kind) else []
  rptFfpItems : s'.rptItems .ffps = s.rptItems .ffps ++ rptFfps
  rptFresh : rptFfps.Nodup ∧
    ∀ e ∈ rptFfps, s.rptFfpArray e = false ∧ s'.arrays .ffps e = true
  rptFfpArray : ∀ e, s'.rptFfpArray e = true ↔ s.rptFfpArray e = true ∨ e ∈ rptFfps
  ready : s.Ready → s'.Ready
  others : s'.others = s.others

section

variable {keeps : Kind → Str → Bool} {new new' : Kind → List Str} {rptFfps rptFfps' : List Str}
  {s s₁ s' s'' : Discovery} {kind : Kind} {e : Str}

theorem Grows.refl (keeps : Kind → Str → Bool) (s : Discovery) :
    Grows keeps (fun _ => []) [] s s where
  items kind := (List.append_nil _).symm
  fresh kind := ⟨List.nodup_nil, by simp⟩
  arrays kind e h := h.resolve_right List.not_mem_nil
  rptItems kind _ := by simp
  rptFfpItems := (List.append_nil _).symm
  rptFresh := ⟨List.nodup_nil, by simp⟩
  rptFfpArray e := by simp
  ready h := h
  others := rfl

theorem Grows.cacheOchCircuit (h : Grows keeps new rptFfps s s') :
    s'.cacheOchCircuit = s.cacheOchCircuit := by
  have hothers := congrArg Discovery.cacheOchCircuit h.others
  exact hothers

/-- What is put there later has not been reported before either. -/
theorem Grows.trans (h : Grows keeps new rptFfps s s') (h' : Grows keeps new' rptFfps' s' s'') :
    Grows keeps (fun kind => new kind ++ new' kind) (rptFfps ++ rptFfps') s s'' where
  items kind := by
    rw [h'.items, h.items, List.append_assoc]
  fresh kind := by
    have hlater (e : Str) (he : e ∈ new' kind) : s.arrays kind e = false ∧ e ∉ new kind := by
      have hfalse := (h'.fresh kind).2 e he
      refine ⟨Bool.eq_false_iff.mpr fun hs => ?_, fun hmem => ?_⟩
      · rw [h.arrays kind e (.inl hs)] at hfalse
        cases hfalse
      · rw [h.arrays kind e (.inr hmem)] at hfalse
        cases hfalse
    refine ⟨List.nodup_append.mpr ⟨(h.fresh kind).1, (h'.fresh kind).1, ?_⟩, fun e he => ?_⟩
    · rintro a ha b hb rfl
      exact (hlater a hb).2 ha
    · rcases List.mem_append.mp he with he | he
      · exact (h.fresh kind).2 e he
      · exact (hlater e he).1
  arrays kind e he := by
    refine h'.arrays kind e ?_
    rcases he with he | he
    · exact .inl (h.arrays kind e (.inl he))
    · rcases List.mem_append.mp he with he | he
      · exact .inl (h.arrays kind e (.inr he))
      · exact .inr he
  rptItems kind hkind := by
    rw [h'.rptItems kind hkind, h.rptItems kind hkind, h.cacheOchCircuit, List.append_assoc]
    split
    · rw [List.filter_append]
    · rfl
  rptFfpItems := by
    rw [h'.rptFfpItems, h.rptFfpItems, List.append_assoc]
  rptFresh := by
    have hlater (e : Str) (he : e ∈ rptFfps') : s.rptFfpArray e = false ∧ e ∉ rptFfps := by
      have hfalse := (h'.rptFresh.2 e he).1
      rw [← Bool.not_eq_true, h.rptFfpArray, not_or] at hfalse
      exact ⟨Bool.not_eq_true _ ▸ hfalse.1, hfalse.2⟩
    refine ⟨List.nodup_append.mpr ⟨h.rptFresh.1, h'.rptFresh.1, ?_⟩, fun e he => ?_⟩
    · rintro a ha b hb rfl
      exact (hlater a hb).2 ha
    · rcases List.mem_append.mp he with he | he
      · exact ⟨(h.rptFresh.2 e he).1, h'.arrays .ffps e (.inl (h.rptFresh.2 e he).2)⟩
      · exact ⟨(hlater e he).1, (h'.rptFresh.2 e he).2⟩
  rptFfpArray e := by
    rw [h'.rptFfpArray, h.rptFfpArray, List.mem_append, or_assoc]
  ready hs := h'.ready (h.ready hs)
  others := h'.others.trans h.others

/-- A list that is not NULL can be extended. -/
theorem Ready.addToListX (h : s.Ready) (kind : Kind) (addToRptCache : Bool) (e : Str) :
    s.addToListX kind addToRptCache e = some { s with
      lists := Function.update s.lists kind (some (s.items kind ++ [e]))
      rptLists := if s.cacheOchCircuit && addToRptCache then
        Function.update s.rptLists kind (some (s.rptItems kind ++ [e])) else s.rptLists } := by
  obtain ⟨l, hl⟩ := Option.isSome_iff_exists.mp (h.lists kind)
  have hlive : s.extendInto .live kind e = some
      { s with lists := Function.update s.lists kind (some (s.items kind ++ [e])) } := by
    simp [extendInto, extend, Discovery.items, hl]
  rw [Discovery.addToListX, hlive, Option.bind_eq_bind, Option.bind_some]
  by_cases hcache : (s.cacheOchCircuit && addToRptCache) = true
  · obtain ⟨hon, -⟩ := Bool.and_eq_true_iff.mp hcache
    obtain ⟨r, hr⟩ := Option.isSome_iff_exists.mp (h.rptLists hon kind)
    rw [if_pos hcache, if_pos hcache]
    simp [extendInto, extend, rptItems, hr]
  · rw [if_neg hcache, if_neg hcache]
    rfl

theorem mem_only {k : Kind} {a : Str} : a ∈ only kind e k ↔ k = kind ∧ a = e := by
  rw [only]
  split
  · rename_i hk
    simp [hk]
  · rename_i hk
    simp [hk]

/-- A list with `e` at its end, among the others. -/
theorem getD_update (lists : Kind → VB) (k : Kind) :
    (Function.update lists kind (some ((lists kind).getD [] ++ [e])) k).getD [] =
      (lists k).getD [] ++ only kind e k := by
  by_cases hk : k = kind
  · subst hk
    simp [only]
  · simp [only, hk]

/-- The same, where the list is extended only if the part has it. -/
theorem getD_update_if (c : Bool) (lists : Kind → VB) (k : Kind) :
    ((if c then Function.update lists kind (some ((lists kind).getD [] ++ [e])) else lists)
      k).getD [] = (lists k).getD [] ++ if c then only kind e k else [] := by
  cases c with
  | true => exact getD_update lists k
  | false => exact (List.append_nil _).symm

theorem filter_only (k : Kind) :
    (only kind e k).filter (keeps k) = if keeps kind e then only kind e k else [] := by
  by_cases hk : k = kind
  · subst hk
    simp [only, List.filter_singleton]
  · simp [only, hk]

theorem isSome_rptLists {b : Bool} {l : List Str} (h : s.Ready)
    (hon : s.cacheOchCircuit = true) (k : Kind) :
    ((if b then Function.update s.rptLists kind (some l) else s.rptLists) k).isSome := by
  split
  · exact isSome_update (h.rptLists hon) kind l k
  · exact h.rptLists hon k

/-- `e` is marked, and put into its list when the procedure has done the rest. -/
theorem Grows.put {addToRptCache : Bool}
    (h : Grows keeps new rptFfps (s.mark kind e) s₁) (hnew : new kind = [])
    (he : s.arrays kind e = false) (hready : s.Ready) (hkeeps : keeps kind e = addToRptCache)
    (hffps : ∀ e, keeps .ffps e = false) :
    ∃ s', s₁.addToListX kind addToRptCache e = some s' ∧
      Grows keeps (fun k => new k ++ only kind e k) rptFfps s s' := by
  have hready₁ : s₁.Ready := h.ready ⟨hready.lists, hready.rptLists⟩
  have hon : s₁.cacheOchCircuit = s.cacheOchCircuit := h.cacheOchCircuit
  refine ⟨_, hready₁.addToListX kind addToRptCache e, ?_, ?_, ?_, ?_, ?_, ?_, ?_, ?_, ?_⟩
  · intro k
    rw [← List.append_assoc]
    exact (getD_update s₁.lists k).trans (congrArg (· ++ _) (h.items k))
  · intro k
    by_cases hk : k = kind
    · subst hk
      simp [hnew, only, he]
    · simpa [mark, hk, only] using h.fresh k
  · intro k a ha
    refine h.arrays k a ?_
    rw [List.mem_append, mem_only] at ha
    rw [mark_arrays]
    tauto
  · intro k hk
    -- what the list of the part gets is what `keeps` says of `e`
    have hfilter : (if s.cacheOchCircuit && addToRptCache then only kind e k else []) =
        if s.cacheOchCircuit then (only kind e k).filter (keeps k) else [] := by
      rw [filter_only, hkeeps]
      cases s.cacheOchCircuit <;> rfl
    refine (getD_update_if _ s₁.rptLists k).trans ?_
    rw [hon, hfilter]
    refine (congrArg (· ++ _) (h.rptItems k hk)).trans ?_
    rw [List.append_assoc]
    change s.rptItems k ++ ((if s.cacheOchCircuit then _ else _) ++ _) = _
    split
    · rw [List.filter_append]
    · rfl
  · have hnone : (if s.cacheOchCircuit && addToRptCache then only kind e .ffps else []) = [] := by
      by_cases hk : Kind.ffps = kind
      · subst hk
        simp [← hkeeps, hffps]
      · simp [only, hk]
    refine (getD_update_if _ s₁.rptLists .ffps).trans ?_
    rw [hon, hnone, List.append_nil]
    exact h.rptFfpItems
  · exact ⟨h.rptFresh.1, h.rptFresh.2⟩
  · exact h.rptFfpArray
  · exact fun _ => ⟨fun k => isSome_update hready₁.lists kind _ k,
      fun hs k => isSome_rptLists hready₁ hs k⟩
  · exact h.others

/-- The procedure returns, and has put something of the kinds `K` into the lists. -/
def Adds (keeps : Kind → Str → Bool) (K : Kind → Prop) (s : Discovery) (o : Option Discovery) :
    Prop :=
  ∃ s' new rptFfps, o = some s' ∧ Grows keeps new rptFfps s s' ∧
    (∀ k, ¬ K k → new k = []) ∧ (¬ K .ffps → rptFfps = [])

variable {K L : Kind → Prop}

theorem Adds.refl (keeps : Kind → Str → Bool) (K : Kind → Prop) (s : Discovery) :
    Adds keeps K s (some s) :=
  ⟨s, _, _, rfl, .refl keeps s, fun _ _ => rfl, fun _ => rfl⟩

theorem Adds.mono {o : Option Discovery} (h : Adds keeps K s o) (hKL : ∀ k, K k → L k) :
    Adds keeps L s o := by
  obtain ⟨s', new, rptFfps, rfl, hgrows, hnew, hffps⟩ := h
  exact ⟨s', new, rptFfps, rfl, hgrows, fun k hk => hnew k (mt (hKL k) hk),
    fun hk => hffps (mt (hKL _) hk)⟩

/-- One procedure after another. -/
theorem Adds.bind {o : Option Discovery} {f : Discovery → Option Discovery} (hready : s.Ready)
    (h : Adds keeps K s o) (hf : ∀ s', s'.Ready → Adds keeps K s' (f s')) :
    Adds keeps K s (o.bind f) := by
  obtain ⟨s₁, new₁, rptFfps₁, rfl, hgrows₁, hnew₁, hffps₁⟩ := h
  obtain ⟨s₂, new₂, rptFfps₂, hs₂, hgrows₂, hnew₂, hffps₂⟩ := hf s₁ (hgrows₁.ready hready)
  refine ⟨s₂, _, _, hs₂, hgrows₁.trans hgrows₂, fun k hk => ?_, fun hk => ?_⟩
  · rw [hnew₁ k hk, hnew₂ k hk, List.append_nil]
  · rw [hffps₁ hk, hffps₂ hk, List.append_nil]

/-- A loop of procedures. -/
theorem Adds.foldlM {β : Type} {f : Discovery → β → Option Discovery} (hready : s.Ready)
    (hf : ∀ b s, Ready s → Adds keeps K s (f s b)) (l : List β) :
    Adds keeps K s (l.foldlM f s) := by
  induction l generalizing s with
  | nil => exact .refl keeps K s
  | cons b l ih =>
      rw [List.foldlM_cons]
      exact (hf b s hready).bind hready fun s' hs' => ih hs'

/-- `e` is put into its list and its array, unless it is in the array. -/
theorem grows_addToList (kind : Kind) {addToRptCache : Bool} (hready : s.Ready)
    (hkeeps : keeps kind e = addToRptCache) (hffps : ∀ e, keeps .ffps e = false) :
    ∃ s', s.addToList kind addToRptCache e = some s' ∧
      Grows keeps (fun k => if s.arrays kind e then [] else only kind e k) [] s s' ∧
      ∀ k a, s'.arrays k a = true ↔ s.arrays k a = true ∨ k = kind ∧ a = e := by
  rw [addToList]
  split
  · rename_i he
    refine ⟨s, rfl, .refl keeps s, fun k a => ⟨.inl, fun h => h.elim id ?_⟩⟩
    rintro ⟨rfl, rfl⟩
    exact he
  · rename_i he
    have hmarked : (s.mark kind e).Ready := ⟨hready.lists, hready.rptLists⟩
    obtain ⟨s', hs', hgrows⟩ := Grows.put (.refl keeps (s.mark kind e)) rfl
      (Bool.eq_false_iff.mpr he) hready hkeeps hffps
    refine ⟨s', hs', hgrows, fun k a => ?_⟩
    rw [hmarked.addToListX] at hs'
    rw [← Option.some.inj hs']
    exact mark_arrays k a

theorem adds_addToList (kind : Kind) {addToRptCache : Bool} (hready : s.Ready)
    (hkeeps : keeps kind e = addToRptCache) (hffps : ∀ e, keeps .ffps e = false) :
    Adds keeps (· = kind) s (s.addToList kind addToRptCache e) := by
  obtain ⟨s', hs', hgrows, -⟩ := grows_addToList kind hready hkeeps hffps
  refine ⟨s', _, _, hs', hgrows, fun k hk => ?_, fun _ => rfl⟩
  rw [only, if_neg hk, ite_self]

theorem grows_mark (keeps : Kind → Str → Bool) (kind : Kind) (e : Str) (s : Discovery) :
    Grows keeps (fun _ => []) [] s (s.mark kind e) :=
  { Grows.refl keeps s with
    arrays := fun k a ha => (mark_arrays k a).mpr (.inl (ha.resolve_right List.not_mem_nil))
    rptFresh := ⟨List.nodup_nil, fun _ h => absurd h List.not_mem_nil⟩
    ready := fun h => ⟨h.lists, h.rptLists⟩
    others := rfl }

/-! ### The reports of a discovery -/

/-- The last field of `linkInfo` says that the link is a composite one. -/
def isComposite (linkInfo : Str) : Bool := LinkType.composite.text.isSuffixOf linkInfo

/-- What is collected for the table; the FFPs are collected by themselves. -/
def collected : Kind → Str → Bool
  | .links, linkInfo => !isComposite linkInfo
  | .ffps, _ => false
  | _, _ => true

theorem collected_link (ends : Str) (type : LinkType) :
    collected .links (ends ++ type.text) = type.addToRptCache := by
  simp only [collected, isComposite, List.isSuffixOf, List.reverse_append]
  cases type <;> rfl

variable {t : Tables}

theorem adds_addFacToListX (hready : s.Ready) (entityId : Str) :
    Adds collected (· = .facilities) s (s.addFacToListX entityId) :=
  adds_addToList .facilities hready rfl fun _ => rfl

theorem adds_addFacilityToList (hready : s.Ready) (entityId : Str) :
    Adds collected (· = .facilities) s (s.addFacilityToList t entityId) := by
  rw [addFacilityToList]
  split
  · exact .refl _ _ s
  · refine Adds.bind hready
      (Adds.foldlM hready (fun id s hs => adds_addFacToListX hs id) _) fun s' _ => ?_
    split
    · exact ⟨_, _, _, rfl, grows_mark _ _ _ s', fun _ _ => rfl, fun _ => rfl⟩
    · exact .refl _ _ s'

theorem adds_addEquipmentToList (hready : s.Ready) (entityId : Str) :
    Adds collected (· ≠ .ffps) s (s.addEquipmentToList t entityId) := by
  rw [addEquipmentToList]
  split
  · exact .refl _ _ s
  · rename_i harray
    have hmarked : (s.mark .equipments entityId).Ready := ⟨hready.lists, hready.rptLists⟩
    rw [addEquipmentToListX]
    split
    · exact ⟨_, _, _, rfl, grows_mark _ _ _ s, fun _ _ => rfl, fun _ => rfl⟩
    · rename_i facIds _
      -- the facilities are reported between the mark and the list
      obtain ⟨s₁, new, rptFfps, hs₁, hgrows, hnew, hffps⟩ := Adds.foldlM hmarked
        (fun facId s hs => adds_addFacilityToList (t := t) hs facId) facIds
      obtain ⟨s', hs', hgrows'⟩ := hgrows.put (hnew .equipments nofun)
        (Bool.eq_false_iff.mpr harray) hready rfl fun _ => rfl
      refine ⟨s', _, _, ?_, hgrows', fun k hk => ?_, fun _ => hffps nofun⟩
      · rw [Option.bind_eq_bind, hs₁]
        exact hs'
      · obtain rfl := not_not.mp hk
        rw [hnew .ffps nofun]
        rfl

/-- The end of `addFFPToList`. -/
theorem grows_addFfpToRptList {v_ffpInfo : Str} (hready : s.Ready)
    (harray : s.arrays .ffps v_ffpInfo = true) :
    ∃ s' rptFfps, s.addFfpToRptList v_ffpInfo = some s' ∧
      Grows collected (fun _ => []) rptFfps s s' ∧
      (s.cacheOchCircuit = true →
        ∀ e, s'.rptFfpArray e = true ↔ s.rptFfpArray e = true ∨ v_ffpInfo = e) := by
  rw [addFfpToRptList]
  split
  · rename_i hcond
    obtain ⟨hon, hnew⟩ := Bool.and_eq_true_iff.mp hcond
    have hlists := hready.rptLists hon
    obtain ⟨r, hr⟩ := Option.isSome_iff_exists.mp (hlists .ffps)
    have hmem (e : Str) : Function.update s.rptFfpArray v_ffpInfo true e = true ↔
        s.rptFfpArray e = true ∨ v_ffpInfo = e := by
      by_cases he : v_ffpInfo = e
      · simp [he]
      · simp [he, Ne.symm he]
    refine ⟨{ s with
      rptFfpArray := Function.update s.rptFfpArray v_ffpInfo true
      rptLists := Function.update s.rptLists .ffps (some (r ++ [v_ffpInfo])) }, [v_ffpInfo], ?_,
      { Grows.refl collected s with
        rptItems := ?_, rptFfpItems := ?_, rptFresh := ?_, rptFfpArray := ?_, ready := ?_,
        others := rfl }, fun _ => hmem⟩
    · simp [extendInto, extend, hr]
    · intro kind hkind
      simp [rptItems, hkind]
    · simp [rptItems, hr]
    · simpa [harray] using hnew
    · intro e
      rw [hmem, List.mem_singleton, eq_comm (a := e)]
    · exact fun h => ⟨h.lists, fun hon => isSome_update (h.rptLists hon) .ffps _⟩
  · rename_i hcond
    refine ⟨s, [], rfl, .refl _ s, fun hon e => ⟨.inl, fun h => h.elim id ?_⟩⟩
    rintro rfl
    simpa [hon] using hcond

/-- The first `IF` of `addFFPToList`: behind it the FFP is in the array. -/
theorem grows_addFfpWithFacilities (hready : s.Ready)
    (v_ffpInfo fromFacilityId toFacilityId : Str) :
    ∃ s' new, s.addFfpWithFacilities t v_ffpInfo fromFacilityId toFacilityId = some s' ∧
      Grows collected new [] s s' ∧ s'.arrays .ffps v_ffpInfo = true := by
  rw [addFfpWithFacilities]
  split
  · rename_i harray
    exact ⟨s, _, rfl, .refl _ s, harray⟩
  · rename_i harray
    have hcollected : collected .ffps v_ffpInfo = false := rfl
    obtain ⟨s₁, hs₁, hgrows₁⟩ := Grows.put (.refl collected (s.mark .ffps v_ffpInfo)) rfl
      (Bool.eq_false_iff.mpr harray) hready hcollected fun _ => rfl
    have hready₁ := hgrows₁.ready hready
    obtain ⟨s₂, new₂, rptFfps₂, hs₂, hgrows₂, -, hffps₂⟩ :=
      (adds_addFacilityToList (t := t) hready₁ fromFacilityId).bind hready₁
        fun s' hs' => adds_addFacilityToList (t := t) hs' toFacilityId
    obtain rfl := hffps₂ nofun
    refine ⟨s₂, _, ?_, hgrows₁.trans hgrows₂, hgrows₂.arrays _ _ (.inl ?_)⟩
    · rw [Option.bind_eq_bind, addFFPToListX, hs₁]
      exact hs₂
    · exact hgrows₁.arrays _ _ (.inr (List.mem_append_right _ (mem_only.mpr ⟨rfl, rfl⟩)))

theorem adds_addFFPToList (hready : s.Ready) (neId fromFacilityId toFacilityId : Str) :
    ∃ s' new rptFfps, s.addFFPToList t neId fromFacilityId toFacilityId = some s' ∧
      Grows collected new rptFfps s s' ∧ (s.cacheOchCircuit = true →
        ∀ e, s'.rptFfpArray e = true ↔ s.rptFfpArray e = true ∨
          (Found.ffp neId fromFacilityId toFacilityId).ffpInfo = some e) := by
  rw [addFFPToList, Found.ffpInfo]
  split
  · exact ⟨s, _, _, rfl, .refl _ s, fun _ e => by simp⟩
  · obtain ⟨s₁, new, hs₁, hgrows₁, harray⟩ := grows_addFfpWithFacilities (t := t) hready
      (ffpInfo neId fromFacilityId toFacilityId) fromFacilityId toFacilityId
    obtain ⟨s', rptFfps, hs', hgrows', hffp⟩ :=
      grows_addFfpToRptList (hgrows₁.ready hready) harray
    refine ⟨s', _, _, ?_, hgrows₁.trans hgrows', fun hon e => ?_⟩
    · exact (congrArg (Option.bind · _) hs₁).trans hs'
    · rw [hffp (hgrows₁.cacheOchCircuit.trans hon) e, hgrows₁.rptFfpArray]
      simp

/-- **A report** returns, and what it puts into the lists is new. -/
theorem adds_add (hready : s.Ready) (f : Found) :
    ∃ s' new rptFfps, s.add t f = some s' ∧ Grows collected new rptFfps s s' ∧
      (s.cacheOchCircuit = true →
        ∀ e, s'.rptFfpArray e = true ↔ s.rptFfpArray e = true ∨ f.ffpInfo = some e) := by
  have hother (hf : f.ffpInfo = none) (h : Adds collected (· ≠ .ffps) s (s.add t f)) :
      ∃ s' new rptFfps, s.add t f = some s' ∧ Grows collected new rptFfps s s' ∧
        (s.cacheOchCircuit = true →
          ∀ e, s'.rptFfpArray e = true ↔ s.rptFfpArray e = true ∨ f.ffpInfo = some e) := by
    obtain ⟨s', new, rptFfps, hs', hgrows, -, hffps⟩ := h
    refine ⟨s', new, rptFfps, hs', hgrows, fun _ e => ?_⟩
    rw [hgrows.rptFfpArray, hffps fun h => h rfl, hf]
    simp
  cases f with
  | link ends type =>
      exact hother rfl ((adds_addToList .links hready (collected_link ends type) fun _ => rfl).mono
        fun k hk => hk ▸ nofun)
  | conn xcInfo =>
      exact hother rfl ((adds_addToList .connections hready rfl fun _ => rfl).mono
        fun k hk => hk ▸ nofun)
  | expLink expsInfo =>
      exact hother rfl ((adds_addToList .expresses hready rfl fun _ => rfl).mono
        fun k hk => hk ▸ nofun)
  | fac entityId =>
      exact hother rfl ((adds_addFacToListX hready entityId).mono fun k hk => hk ▸ nofun)
  | facility entityId =>
      exact hother rfl ((adds_addFacilityToList hready entityId).mono fun k hk => hk ▸ nofun)
  | equipment entityId => exact hother rfl (adds_addEquipmentToList hready entityId)
  | ffp neId fromFacilityId toFacilityId =>
      exact adds_addFFPToList hready neId fromFacilityId toFacilityId

end

end Discovery

end Realwork.Circuit
