import Mathlib.Logic.Function.Basic
import Realwork.Receive.Definitions

/-!
# Receive — the handler of the XML parser

`WSax2Handler`: it keeps the text of every element that is closed, and at the end of an
`equipInfo` makes a record of them.  The parser itself is outside; `Parsed` is what it does with
a text.

* `run_ok_iff`: the handler gets through a document if and only if every `equipInfo` has its
  tags.
* `run_records`: it then has a content record for each of them.
-/

namespace Realwork.Receive

/-- A call of the handler; `characters` is given what `WCoder::ToString` makes of the text. -/
inductive Sax where
  | startElement (localname : Str)
  | characters (chars : Str)
  | endElement (localname : Str)
  deriving DecidableEq

/-- What the parser does with a text: the calls of the handler, and whether it then gets to
`endDocument`, having met no fatal error and raised no exception. -/
structure Parsed where
  events : List Sax
  complete : Bool

abbrev Xerces := Str → Parsed

abbrev RecordMap := Str → Option Str

def RecordMap.remove (m : RecordMap) (element : Str) : RecordMap := Function.update m element none

/-! ### The records -/

/-- A member of `WRecord`, and the element it is read from. -/
structure Field where
  element : Str
  set : WRecord → Str → WRecord
  isEnd_set : ∀ pRecord value, (set pRecord value).isEnd = pRecord.isEnd := by intros; rfl

/-- The uses of `GET_HEAD_FROM_MAP`. -/
def headFields : List Field :=
  [ { element := lit "messageType", set := fun r value => { r with messageType := value } },
    { element := lit "koujitCount", set := fun r value => { r with koujitCount := value } },
    { element := lit "regkubun", set := fun r value => { r with regkubun := value } },
    { element := lit "cmngno", set := fun r value => { r with cmngno := value } },
    { element := lit "constnm", set := fun r value => { r with constnm := value } },
    { element := lit "equipCount", set := fun r value => { r with equipCount := value } } ]

/-- The uses of `GET_RECORD_FROM_MAP`. -/
def recordFields : List Field :=
  [ { element := lit "kono", set := fun r value => { r with kono := value } },
    { element := lit "buil_nm", set := fun r value => { r with buil_nm := value } },
    { element := lit "kaitei_nm", set := fun r value => { r with kaitei_nm := value } },
    { element := lit "sdate", set := fun r value => { r with sdate := value } },
    { element := lit "edate", set := fun r value => { r with edate := value } },
    { element := lit "jsdate", set := fun r value => { r with jsdate := value } },
    { element := lit "jedate", set := fun r value => { r with jedate := value } },
    { element := lit "ope_kd_flg", set := fun r value => { r with ope_kd_flg := value } },
    { element := lit "neid", set := fun r value => { r with neid := value } },
    { element := lit "sub_neid", set := fun r value => { r with sub_neid := value } } ]

/-- The message of the `WException` of a missing tag. -/
def missingTag (element : Str) : Str := lit "Missing tag <" ++ element ++ lit ">"

/-- `GET_HEAD_FROM_MAP`. -/
def getHeadFromMap (m : RecordMap) (pRecord : WRecord) (f : Field) : Except Str WRecord :=
  match m f.element with
  | some value => .ok (f.set pRecord value)
  | none => .error (missingTag f.element)

/-- `GET_RECORD_FROM_MAP`, which removes the element. -/
def getRecordFromMap (s : WRecord × RecordMap) (f : Field) : Except Str (WRecord × RecordMap) :=
  match s.2 f.element with
  | some value => .ok (f.set s.1 value, s.2.remove f.element)
  | none => .error (missingTag f.element)

/-- The record of an `equipInfo`, and `m_curRecord` after it. -/
def constructRecord (m : RecordMap) : Except Str (WRecord × RecordMap) := do
  let pRecord ← headFields.foldlM (getHeadFromMap m) {}
  recordFields.foldlM getRecordFromMap (pRecord, m)

/-! ### `WSax2Handler` -/

structure WSax2Handler where
  tmpRecordList : List WRecord := []
  curRecord : RecordMap := fun _ => none
  curElement : Str := []
  curValue : Str := []
  isOpen : Bool := false

namespace WSax2Handler

def startElement (h : WSax2Handler) (localname : Str) : WSax2Handler :=
  { h with isOpen := true, curElement := localname, curValue := [] }

def characters (h : WSax2Handler) (chars : Str) : WSax2Handler :=
  if h.isOpen ∧ h.curElement ≠ lit "message" ∧ h.curElement ≠ lit "koujitInfo" ∧
      h.curElement ≠ lit "equipInfo" then
    { h with curValue := h.curValue ++ chars }
  else h

/-- `endElement`, which raises the message of a `WException`. -/
def endElement (h : WSax2Handler) (localname : Str) : Except Str WSax2Handler :=
  if localname = lit "equipInfo" then do
    let (pRecord, curRecord) ← constructRecord h.curRecord
    return { h with
      isOpen := false
      curElement := localname
      curRecord
      tmpRecordList := h.tmpRecordList ++ [pRecord] }
  else
    return { h with
      isOpen := false
      curElement := localname
      curRecord := Function.update h.curRecord localname (some h.curValue) }

def event (h : WSax2Handler) : Sax → Except Str WSax2Handler
  | .startElement localname => .ok (h.startElement localname)
  | .characters chars => .ok (h.characters chars)
  | .endElement localname => h.endElement localname

/-- The calls of a document, up to the first that raises. -/
def run (h : WSax2Handler) (events : List Sax) : Except Str WSax2Handler :=
  events.foldlM event h

theorem run_cons (h : WSax2Handler) (e : Sax) (events : List Sax) :
    h.run (e :: events) = (h.event e).bind fun h => h.run events := rfl

theorem run_append (h : WSax2Handler) (events later : List Sax) :
    h.run (events ++ later) = (h.run events).bind fun h => h.run later :=
  List.foldlM_append

end WSax2Handler

/-! ### Documents -/

/-- The elements that are closed, in order. -/
def closed (events : List Sax) : List Str :=
  events.filterMap fun
    | .endElement localname => some localname
    | _ => none

/-- The elements closed since the last `equipInfo`, the last one first. -/
def sinceEquip (names : List Str) : List Str :=
  names.reverse.takeWhile (· ≠ lit "equipInfo")

/-- The elements a record is made of have been closed. -/
def Ready (names : List Str) : Prop :=
  (∀ f ∈ headFields, f.element ∈ names) ∧ ∀ f ∈ recordFields, f.element ∈ sinceEquip names

/-- Every `equipInfo` has its tags. -/
def Tagged (names : List Str) : Prop :=
  ∀ pre post, names = pre ++ lit "equipInfo" :: post → Ready pre

theorem sinceEquip_equipInfo (names : List Str) : sinceEquip (names ++ [lit "equipInfo"]) = [] := by
  simp [sinceEquip]

theorem sinceEquip_other (names : List Str) {name : Str} (h : name ≠ lit "equipInfo") :
    sinceEquip (names ++ [name]) = name :: sinceEquip names := by
  simp [sinceEquip, h]

theorem tagged_cons_other {names : List Str} {name : Str} {pre : List Str}
    (h : name ≠ lit "equipInfo") :
    (∀ mid post, name :: names = mid ++ lit "equipInfo" :: post → Ready (pre ++ mid)) ↔
      ∀ mid post, names = mid ++ lit "equipInfo" :: post → Ready (pre ++ [name] ++ mid) := by
  constructor
  · intro hall mid post hnames
    rw [List.append_assoc]
    exact hall (name :: mid) post (by rw [hnames]; rfl)
  · rintro hall (_ | ⟨name', mid⟩) post hnames
    · exact absurd (List.cons.inj hnames).1 h
    · obtain ⟨rfl, hmid⟩ := List.cons.inj hnames
      simpa using hall mid post hmid

theorem tagged_cons_equipInfo {names pre : List Str} :
    (∀ mid post, lit "equipInfo" :: names = mid ++ lit "equipInfo" :: post → Ready (pre ++ mid)) ↔
      Ready pre ∧ ∀ mid post, names = mid ++ lit "equipInfo" :: post →
        Ready (pre ++ [lit "equipInfo"] ++ mid) := by
  constructor
  · intro hall
    refine ⟨by simpa using hall [] names rfl, fun mid post hnames => ?_⟩
    rw [List.append_assoc]
    exact hall (lit "equipInfo" :: mid) post (by rw [hnames]; rfl)
  · rintro ⟨hready, hall⟩ (_ | ⟨name', mid⟩) post hnames
    · simpa using hready
    · obtain ⟨rfl, hmid⟩ := List.cons.inj hnames
      simpa using hall mid post hmid

/-! ### The macros -/

theorem foldlM_cons_ok {α β : Type} {f : β → α → Except Str β} {a : α} {as : List α} {b r : β} :
    (a :: as).foldlM f b = .ok r ↔ ∃ b', f b a = .ok b' ∧ as.foldlM f b' = .ok r := by
  rw [List.foldlM_cons]
  cases f b a with
  | error e => simp [bind, Except.bind]
  | ok b' => simp [bind, Except.bind]

/-- The elements a list of members is read from. -/
def elements (fields : List Field) : List Str := fields.map Field.element

/-- What the two macros have in common, `rec` and `look` being the record and the map of a state:
a use looks its element up and puts the value into the record, or raises for the missing tag, and
changes the map at its element only. -/
structure Looks {σ : Type} (use : σ → Field → Except Str σ) (rec : σ → WRecord)
    (look : σ → RecordMap) : Prop where
  error : ∀ s f, look s f.element = none → use s f = .error (missingTag f.element)
  ok : ∀ s f value, look s f.element = some value → ∃ s', use s f = .ok s' ∧
    rec s' = f.set (rec s) value ∧ ∀ name, name ≠ f.element → look s' name = look s name

theorem looks_head (m : RecordMap) : Looks (getHeadFromMap m) id fun _ => m where
  error s f hm := by rw [getHeadFromMap, hm]
  ok s f value hm := ⟨f.set s value, by rw [getHeadFromMap, hm], rfl, fun _ _ => rfl⟩

theorem looks_record : Looks getRecordFromMap Prod.fst Prod.snd where
  error s f hm := by rw [getRecordFromMap, hm]
  ok s f value hm := by
    refine ⟨(f.set s.1 value, s.2.remove f.element), by rw [getRecordFromMap, hm], rfl, ?_⟩
    intro name hname
    exact Function.update_of_ne hname _ _

namespace Looks

variable {σ : Type} {use : σ → Field → Except Str σ} {rec : σ → WRecord} {look : σ → RecordMap}
  {fields : List Field}

theorem of_ok (hl : Looks use rec look) {s s' : σ} {f : Field} (h : use s f = .ok s') :
    ∃ value, look s f.element = some value ∧ rec s' = f.set (rec s) value ∧
      ∀ name, name ≠ f.element → look s' name = look s name := by
  cases hm : look s f.element with
  | none =>
      rw [hl.error s f hm] at h
      cases h
  | some value =>
      obtain ⟨s₁, hs₁, hrest⟩ := hl.ok s f value hm
      rw [hs₁] at h
      cases h
      exact ⟨value, rfl, hrest⟩

/-- The uses of a macro get through if their elements are in the map. -/
theorem ok_iff (hl : Looks use rec look) (hnodup : (elements fields).Nodup) (s : σ) :
    (∃ s', fields.foldlM use s = .ok s') ↔ ∀ f ∈ fields, (look s f.element).isSome := by
  induction fields generalizing s with
  | nil => exact ⟨fun _ f hf => absurd hf List.not_mem_nil, fun _ => ⟨s, rfl⟩⟩
  | cons f fields ih =>
      obtain ⟨hnew, hnodup⟩ := List.nodup_cons.mp hnodup
      -- the element of this use is none of the later ones
      have hlater : ∀ g ∈ fields, g.element ≠ f.element :=
        fun g hg he => hnew (List.mem_map.mpr ⟨g, hg, he⟩)
      rw [List.forall_mem_cons]
      constructor
      · rintro ⟨s', h⟩
        obtain ⟨s₁, hf, h⟩ := foldlM_cons_ok.mp h
        obtain ⟨value, hm, -, hother⟩ := hl.of_ok hf
        refine ⟨by rw [hm]; rfl, fun g hg => ?_⟩
        rw [← hother g.element (hlater g hg)]
        exact (ih hnodup s₁).mp ⟨s', h⟩ g hg
      · rintro ⟨hf, h⟩
        obtain ⟨value, hm⟩ := Option.isSome_iff_exists.mp hf
        obtain ⟨s₁, hs₁, -, hother⟩ := hl.ok s f value hm
        obtain ⟨s', h⟩ := (ih hnodup s₁).mpr fun g hg => by
          rw [hother g.element (hlater g hg)]
          exact h g hg
        exact ⟨s', foldlM_cons_ok.mpr ⟨s₁, hs₁, h⟩⟩

theorem isEnd (hl : Looks use rec look) {s s' : σ} (h : fields.foldlM use s = .ok s') :
    (rec s').isEnd = (rec s).isEnd := by
  induction fields generalizing s with
  | nil => cases h; rfl
  | cons f fields ih =>
      obtain ⟨s₁, hf, h⟩ := foldlM_cons_ok.mp h
      obtain ⟨value, -, hrec, -⟩ := hl.of_ok hf
      rw [ih h, hrec]
      exact f.isEnd_set (rec s) value

end Looks

theorem getRecordFromMap_ok {s s' : WRecord × RecordMap} {f : Field} :
    getRecordFromMap s f = .ok s' ↔
      ∃ value, s.2 f.element = some value ∧ s' = (f.set s.1 value, s.2.remove f.element) := by
  unfold getRecordFromMap
  cases s.2 f.element with
  | none => simp
  | some value => simp [eq_comm]

/-- After the macros their elements are no longer in the map. -/
theorem getRecords_result {fields : List Field} {s s' : WRecord × RecordMap}
    (h : fields.foldlM getRecordFromMap s = .ok s') :
    ∀ e, s'.2 e = if e ∈ elements fields then none else s.2 e := by
  induction fields generalizing s with
  | nil => cases h; exact fun e => by simp [elements]
  | cons f fields ih =>
      obtain ⟨s₁, hf, h⟩ := foldlM_cons_ok.mp h
      obtain ⟨value, -, rfl⟩ := getRecordFromMap_ok.mp hf
      intro e
      rw [ih h e]
      by_cases he : e = f.element <;> simp [elements, RecordMap.remove, he]

theorem constructRecord_ok {m : RecordMap} {s : WRecord × RecordMap} :
    constructRecord m = .ok s ↔ ∃ r, headFields.foldlM (getHeadFromMap m) {} = .ok r ∧
      recordFields.foldlM getRecordFromMap (r, m) = .ok s := by
  unfold constructRecord
  cases headFields.foldlM (getHeadFromMap m) {} with
  | error e => simp [bind, Except.bind]
  | ok r => simp [bind, Except.bind]

theorem constructRecord_ok_iff (m : RecordMap) :
    (∃ s, constructRecord m = .ok s) ↔
      (∀ f ∈ headFields, (m f.element).isSome) ∧ ∀ f ∈ recordFields, (m f.element).isSome := by
  have hhead : (∃ r, headFields.foldlM (getHeadFromMap m) {} = .ok r) ↔
      ∀ f ∈ headFields, (m f.element).isSome := (looks_head m).ok_iff (by decide) {}
  have hrecord : ∀ r, (∃ s, recordFields.foldlM getRecordFromMap (r, m) = .ok s) ↔
      ∀ f ∈ recordFields, (m f.element).isSome :=
    fun r => looks_record.ok_iff (by decide) (r, m)
  constructor
  · rintro ⟨s, h⟩
    obtain ⟨r, hr, hs⟩ := constructRecord_ok.mp h
    exact ⟨hhead.mp ⟨r, hr⟩, (hrecord r).mp ⟨s, hs⟩⟩
  · rintro ⟨hheads, hrecords⟩
    obtain ⟨r, hr⟩ := hhead.mpr hheads
    obtain ⟨s, hs⟩ := (hrecord r).mpr hrecords
    exact ⟨s, constructRecord_ok.mpr ⟨r, hr, hs⟩⟩

/-! ### The handler -/

/-- `m_curRecord` has the elements that are closed, those of a record since the last
`equipInfo`. -/
def Tracks (names : List Str) (m : RecordMap) : Prop :=
  ∀ e, e ≠ lit "equipInfo" →
    (e ∈ elements recordFields → ((m e).isSome ↔ e ∈ sinceEquip names)) ∧
      (e ∉ elements recordFields → ((m e).isSome ↔ e ∈ names))

theorem Tracks.ready {names : List Str} {m : RecordMap} (h : Tracks names m) :
    (∃ s, constructRecord m = .ok s) ↔ Ready names := by
  have hhead : ∀ f ∈ headFields, f.element ≠ lit "equipInfo" ∧
      f.element ∉ elements recordFields := by decide
  have hrecord : ∀ f ∈ recordFields, f.element ≠ lit "equipInfo" ∧
      f.element ∈ elements recordFields := by decide
  rw [constructRecord_ok_iff]
  refine and_congr (forall₂_congr fun f hf => ?_) (forall₂_congr fun f hf => ?_)
  · exact (h _ (hhead f hf).1).2 (hhead f hf).2
  · exact (h _ (hrecord f hf).1).1 (hrecord f hf).2

theorem Tracks.other {names : List Str} {m : RecordMap} (h : Tracks names m) {name : Str}
    (value : Str) (hname : name ≠ lit "equipInfo") :
    Tracks (names ++ [name]) (Function.update m name (some value)) := by
  intro e he
  rw [sinceEquip_other names hname]
  by_cases hen : e = name
  · subst hen
    simp
  · rw [Function.update_of_ne hen]
    simpa [hen] using h e he

theorem Tracks.equipInfo {names : List Str} {m : RecordMap} (h : Tracks names m)
    {s : WRecord × RecordMap} (hs : constructRecord m = .ok s) :
    s.1.isEnd = false ∧ Tracks (names ++ [lit "equipInfo"]) s.2 := by
  obtain ⟨r, hr, hs⟩ := constructRecord_ok.mp hs
  refine ⟨(looks_record.isEnd hs).trans ((looks_head m).isEnd hr), fun e he => ?_⟩
  rw [getRecords_result hs e, sinceEquip_equipInfo]
  by_cases hrec : e ∈ elements recordFields
  · simp [hrec]
  · simpa [hrec, he] using (h e he).2 hrec

namespace WSax2Handler

/-- The handler after a document up to some point: `names` are the elements closed so far. -/
structure Follows (names : List Str) (h : WSax2Handler) : Prop where
  tracks : Tracks names h.curRecord
  count : h.tmpRecordList.length = names.count (lit "equipInfo")
  content : ∀ r ∈ h.tmpRecordList, r.isEnd = false

theorem follows_start : Follows [] {} :=
  ⟨fun e _ => by simp [sinceEquip], rfl, fun r hr => absurd hr List.not_mem_nil⟩

theorem Follows.same {names : List Str} {h h' : WSax2Handler} (hf : Follows names h)
    (hm : h'.curRecord = h.curRecord) (hl : h'.tmpRecordList = h.tmpRecordList) :
    Follows names h' :=
  ⟨hm ▸ hf.tracks, hl ▸ hf.count, hl ▸ hf.content⟩

theorem endElement_equipInfo (h : WSax2Handler) :
    h.endElement (lit "equipInfo") = (constructRecord h.curRecord).map fun s =>
      { h with
        isOpen := false
        curElement := lit "equipInfo"
        curRecord := s.2
        tmpRecordList := h.tmpRecordList ++ [s.1] } := by
  unfold endElement
  rw [if_pos rfl]
  cases constructRecord h.curRecord <;> rfl

variable {names : List Str} {h h' : WSax2Handler}

/-- **The end of an `equipInfo`** raises unless the record is ready. -/
theorem Follows.endEquipInfo (hf : Follows names h) :
    ((∃ h', h.endElement (lit "equipInfo") = .ok h') ↔ Ready names) ∧
      ∀ h', h.endElement (lit "equipInfo") = .ok h' →
        Follows (names ++ [lit "equipInfo"]) h' := by
  rw [endElement_equipInfo, ← hf.tracks.ready]
  cases hs : constructRecord h.curRecord with
  | error e => simp [Except.map]
  | ok s =>
      obtain ⟨hisEnd, htracks⟩ := hf.tracks.equipInfo hs
      refine ⟨by simp [Except.map], ?_⟩
      rintro h' ⟨⟩
      refine ⟨htracks, by simp [hf.count], fun r hr => ?_⟩
      rcases List.mem_append.mp hr with hr | hr
      · exact hf.content r hr
      · rw [List.mem_singleton.mp hr]
        exact hisEnd

/-- **The end of another element** puts it into the map. -/
theorem Follows.endOther (hf : Follows names h) {name : Str} (hname : name ≠ lit "equipInfo") :
    ∃ h', h.endElement name = .ok h' ∧ Follows (names ++ [name]) h' := by
  unfold endElement
  rw [if_neg hname]
  exact ⟨_, rfl, hf.tracks.other h.curValue hname, by simp [hf.count, hname], hf.content⟩

theorem Follows.characters (hf : Follows names h) (chars : Str) :
    Follows names (h.characters chars) := by
  refine hf.same ?_ ?_ <;> unfold WSax2Handler.characters <;> split <;> rfl

/-- **A document.**  The handler gets through it if every `equipInfo` finds its tags. -/
theorem Follows.run_ok_iff (hf : Follows names h) (events : List Sax) :
    ((∃ h', h.run events = .ok h') ↔
      ∀ mid post, closed events = mid ++ lit "equipInfo" :: post → Ready (names ++ mid)) ∧
      ∀ h', h.run events = .ok h' → Follows (names ++ closed events) h' := by
  induction events generalizing names h with
  | nil =>
      refine ⟨⟨fun _ mid post hnil => absurd hnil (by simp [closed]), fun _ => ⟨h, rfl⟩⟩, ?_⟩
      rintro h' ⟨⟩
      simpa [closed] using hf
  | cons e events ih =>
      cases e with
      | startElement localname => exact ih (hf.same rfl rfl)
      | characters chars => exact ih (hf.characters chars)
      | endElement name =>
          have hclosed : closed (.endElement name :: events) = name :: closed events := rfl
          have hrun : h.run (.endElement name :: events) =
              (h.endElement name).bind fun h => h.run events := rfl
          rw [hclosed, hrun]
          by_cases hname : name = lit "equipInfo"
          · subst hname
            obtain ⟨hiff, hnext⟩ := hf.endEquipInfo
            rw [tagged_cons_equipInfo]
            cases he : h.endElement (lit "equipInfo") with
            | error m =>
                rw [he] at hiff
                refine ⟨⟨?_, fun hall => ?_⟩, ?_⟩
                · rintro ⟨h', hh⟩
                  cases hh
                · obtain ⟨h', hh⟩ := hiff.mpr hall.1
                  cases hh
                · rintro h' hh
                  cases hh
            | ok h₁ =>
                obtain ⟨hok, hfollows⟩ := ih (hnext h₁ he)
                have hready : Ready names := hiff.mp ⟨h₁, he⟩
                rw [List.append_assoc] at hfollows
                exact ⟨hok.trans ⟨fun hall => ⟨hready, hall⟩, And.right⟩, hfollows⟩
          · obtain ⟨h₁, he, hf₁⟩ := hf.endOther hname
            obtain ⟨hok, hfollows⟩ := ih hf₁
            rw [tagged_cons_other hname, he]
            rw [List.append_assoc] at hfollows
            exact ⟨hok, hfollows⟩

end WSax2Handler

open WSax2Handler

/-- The handler gets through a document if and only if every `equipInfo` has its tags. -/
theorem run_ok_iff (events : List Sax) :
    (∃ h, WSax2Handler.run {} events = .ok h) ↔ Tagged (closed events) :=
  (follows_start.run_ok_iff events).1

/-- It then has a content record for each of them. -/
theorem run_records {events : List Sax} {h : WSax2Handler}
    (hrun : WSax2Handler.run {} events = .ok h) :
    h.tmpRecordList.length = (closed events).count (lit "equipInfo") ∧
      ∀ r ∈ h.tmpRecordList, r.isEnd = false :=
  have hf := (follows_start.run_ok_iff events).2 h hrun
  ⟨hf.count, hf.content⟩

instance (events : List Sax) : Decidable (Tagged (closed events)) :=
  decidable_of_iff ((WSax2Handler.run {} events).toOption.isSome) <| by
    rw [← run_ok_iff]
    cases WSax2Handler.run {} events <;> simp [Except.toOption]

end Realwork.Receive
